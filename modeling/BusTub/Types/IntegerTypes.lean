import BusTub.Library.WrapAround
import BusTub.Types.Value

/-! # The integer types

Every integer type keeps the least number of its C++ type for NULL. `integerContent`
is the content of a value of such a type, with the type.
-/

namespace BusTub

open WrapAround

/-- The types that `CheckInteger` accepts. -/
inductive IntegerType where
  | tinyint
  | smallint
  | integer
  | bigint
  deriving DecidableEq, Repr

namespace IntegerType

/-- The bits of the C++ type. -/
def width : IntegerType → Nat
  | .tinyint => 8
  | .smallint => 16
  | .integer => 32
  | .bigint => 64

def typeId : IntegerType → TypeId
  | .tinyint => .tinyint
  | .smallint => .smallint
  | .integer => .integer
  | .bigint => .bigint

/-- The constructor of `Value` for the type, after a cast to the C++ type. -/
def value : IntegerType → Int → Value
  | .tinyint, i => .tinyint (Int8.ofInt i)
  | .smallint, i => .smallint (Int16.ofInt i)
  | .integer, i => .integer (Int32.ofInt i)
  | .bigint, i => .bigint (Int64.ofInt i)

/-- `BUSTUB_INT8_NULL` and the like. -/
def null (type : IntegerType) : Int := -2 ^ (type.width - 1)

/-- The numbers from `BUSTUB_INT8_MIN` to `BUSTUB_INT8_MAX`, and the like. -/
def InRange (type : IntegerType) (i : Int) : Prop := Balanced type.width i

instance (type : IntegerType) (i : Int) : Decidable (type.InRange i) :=
  inferInstanceAs (Decidable (Balanced _ _))

/-- The wider one of two types, the first one if they are the same. -/
def wider (type1 type2 : IntegerType) : IntegerType :=
  if type2.width ≤ type1.width then type1 else type2

theorem width_pos (type : IntegerType) : 0 < type.width := by
  cases type <;> decide

theorem eq_of_width_eq {type1 type2 : IntegerType} (h : type1.width = type2.width) :
    type1 = type2 := by
  cases type1 <;> cases type2 <;> first | rfl | exact absurd h (by decide)

theorem width_wider (type1 type2 : IntegerType) :
    (type1.wider type2).width = max type1.width type2.width := by
  unfold wider
  split <;> omega

theorem width_le_wider_left (type1 type2 : IntegerType) :
    type1.width ≤ (type1.wider type2).width := by
  rw [width_wider]
  exact le_max_left _ _

theorem width_le_wider_right (type1 type2 : IntegerType) :
    type2.width ≤ (type1.wider type2).width := by
  rw [width_wider]
  exact le_max_right _ _

theorem InRange.mono {type1 type2 : IntegerType} {i : Int} (h : type1.InRange i)
    (hle : type1.width ≤ type2.width) : type2.InRange i :=
  Balanced.mono h hle

end IntegerType

namespace Value

/-- `GetAs` for the C++ type of an integer type, with that type. -/
def integerContent : Value → Option (IntegerType × Int)
  | .tinyint value => some (.tinyint, value.toInt)
  | .smallint value => some (.smallint, value.toInt)
  | .integer value => some (.integer, value.toInt)
  | .bigint value => some (.bigint, value.toInt)
  | _ => none

variable {value : Value} {type : IntegerType} {i : Int}

theorem integerContent_value (type : IntegerType) (i : Int) :
    (type.value i).integerContent = some (type, wrap type.width i) := by
  cases type with
  | tinyint => exact congrArg (fun n => some (IntegerType.tinyint, n)) Int8.toInt_ofInt
  | smallint => exact congrArg (fun n => some (IntegerType.smallint, n)) Int16.toInt_ofInt
  | integer => exact congrArg (fun n => some (IntegerType.integer, n)) Int32.toInt_ofInt
  | bigint => exact congrArg (fun n => some (IntegerType.bigint, n)) Int64.toInt_ofInt

theorem integerContent_value_of_fits (h : Fits type.width i) :
    (type.value i).integerContent = some (type, i) := by
  rw [integerContent_value, wrap_of_fits type.width_pos h]

theorem fits_of_integerContent (h : value.integerContent = some (type, i)) :
    Fits type.width i := by
  cases value with
  | tinyint content => cases h; exact ⟨Int8.le_toInt content, Int8.toInt_lt content⟩
  | smallint content => cases h; exact ⟨Int16.le_toInt content, Int16.toInt_lt content⟩
  | integer content => cases h; exact ⟨Int32.le_toInt content, Int32.toInt_lt content⟩
  | bigint content => cases h; exact ⟨Int64.le_toInt content, Int64.toInt_lt content⟩
  | boolean content => cases h
  | decimal content => cases h
  | varchar content => cases h

/-- A value of an integer type is made of its content. -/
theorem eq_value_of_integerContent (h : value.integerContent = some (type, i)) :
    value = type.value i := by
  obtain ⟨hlow, hhigh⟩ := fits_of_integerContent h
  cases value with
  | tinyint content =>
      cases h
      exact congrArg Value.tinyint (Int8.toInt.inj (Int8.toInt_ofInt_of_le hlow hhigh).symm)
  | smallint content =>
      cases h
      exact congrArg Value.smallint (Int16.toInt.inj (Int16.toInt_ofInt_of_le hlow hhigh).symm)
  | integer content =>
      cases h
      exact congrArg Value.integer (Int32.toInt.inj (Int32.toInt_ofInt_of_le hlow hhigh).symm)
  | bigint content =>
      cases h
      exact congrArg Value.bigint (Int64.toInt.inj (Int64.toInt_ofInt_of_le hlow hhigh).symm)
  | boolean content => cases h
  | decimal content => cases h
  | varchar content => cases h

/-- NULL is the least content. -/
theorem isNull_eq_true_iff (h : value.integerContent = some (type, i)) :
    value.isNull = true ↔ i = type.null := by
  cases value with
  | tinyint content =>
      cases h
      exact beq_iff_eq.trans Int8.toInt_inj.symm
  | smallint content =>
      cases h
      exact beq_iff_eq.trans Int16.toInt_inj.symm
  | integer content =>
      cases h
      exact beq_iff_eq.trans Int32.toInt_inj.symm
  | bigint content =>
      cases h
      exact beq_iff_eq.trans Int64.toInt_inj.symm
  | boolean content => cases h
  | decimal content => cases h
  | varchar content => cases h

/-- A value that is not NULL is in the range of its type. -/
theorem isNull_eq_false_iff (h : value.integerContent = some (type, i)) :
    value.isNull = false ↔ type.InRange i := by
  rw [← Bool.not_eq_true, isNull_eq_true_iff h]
  unfold IntegerType.InRange
  rw [balanced_iff]
  exact (and_iff_right (fits_of_integerContent h)).symm

theorem getTypeId_of_integerContent (h : value.integerContent = some (type, i)) :
    value.getTypeId = type.typeId := by
  rw [eq_value_of_integerContent h]
  cases type <;> rfl

end Value

end BusTub
