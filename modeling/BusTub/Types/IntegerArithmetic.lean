import BusTub.Types.IntegerTypes

/-! # Arithmetic on values

`Add`, `Subtract` and `Multiply`. On two integers that are not NULL they find every
overflow, but the least number of a type is not taken for one: that result is NULL.
-/

namespace BusTub

open WrapAround

/-- The operators of doubles. -/
class DoubleArithmetic where
  add : Double → Double → Double
  subtract : Double → Double → Double
  multiply : Double → Double → Double

/-- Operators of doubles where there is no double. -/
@[reducible] def noDoubleArithmetic : DoubleArithmetic where
  add _ _ := 0
  subtract _ _ := 0
  multiply _ _ := 0

/-- The checked operators of `IntegerParentType`. -/
inductive ArithmeticOp where
  | add
  | subtract
  | multiply
  deriving DecidableEq, Repr

namespace IntegerType

/-- The bits of the operands after the integer promotions: no operand is narrower than `int`. -/
def promotedWidth (type1 type2 : IntegerType) : Nat := max 32 (max type1.width type2.width)

/-- The templates of `IntegerParentType`: `result` is computed in the promoted type, and
`overflows` is the detection after the fact, with what is left of the result. -/
def operateValue (type1 type2 : IntegerType) (result : Int) (overflows : Int → Bool) :
    Except EvalFault Value :=
  let result := wrap (type1.promotedWidth type2) result
  let result1 := wrap type1.width result
  let result2 := wrap type2.width result
  if result ≠ result1 ∧ result ≠ result2 then .error .outOfRange
  else if type2.width ≤ type1.width then
    if overflows result1 then .error .outOfRange else .ok (type1.value result1)
  else if overflows result2 then .error .outOfRange
  else .ok (type2.value result2)

/-- `AddValue`. -/
def addValue (type1 type2 : IntegerType) (x y : Int) : Except EvalFault Value :=
  operateValue type1 type2 (x + y) fun sum =>
    (0 < x && 0 < y && sum < 0) || (x < 0 && y < 0 && 0 < sum)

/-- `SubtractValue`. -/
def subtractValue (type1 type2 : IntegerType) (x y : Int) : Except EvalFault Value :=
  operateValue type1 type2 (x - y) fun diff =>
    (0 < x && y < 0 && diff < 0) || (x < 0 && 0 < y && 0 < diff)

/-- `MultiplyValue`. The quotient fits: the product is the least number for no divisor `-1`. -/
def multiplyValue (type1 type2 : IntegerType) (x y : Int) : Except EvalFault Value :=
  operateValue type1 type2 (x * y) fun prod => y ≠ 0 && prod.tdiv y ≠ x

end IntegerType

namespace ArithmeticOp

/-- The operation without any bound. -/
def exact : ArithmeticOp → Int → Int → Int
  | .add, x, y => x + y
  | .subtract, x, y => x - y
  | .multiply, x, y => x * y

def onIntegers : ArithmeticOp → IntegerType → IntegerType → Int → Int → Except EvalFault Value
  | .add => IntegerType.addValue
  | .subtract => IntegerType.subtractValue
  | .multiply => IntegerType.multiplyValue

def onDoubles [DoubleArithmetic] : ArithmeticOp → Double → Double → Double
  | .add => DoubleArithmetic.add
  | .subtract => DoubleArithmetic.subtract
  | .multiply => DoubleArithmetic.multiply

variable [DoubleText] [DoubleArithmetic]

/-- `INT_MODIFY_FUNC` and the like, for a left operand of an integer type. -/
def modifyInt (op : ArithmeticOp) (type : IntegerType) (left : Int) :
    Value → Except EvalFault Value
  | .tinyint right => op.onIntegers type .tinyint left right.toInt
  | .smallint right => op.onIntegers type .smallint left right.toInt
  | .integer right => op.onIntegers type .integer left right.toInt
  | .bigint right => op.onIntegers type .bigint left right.toInt
  | .decimal right => .ok (.decimal (op.onDoubles (Double.ofInt left) right))
  | .varchar right => do
      match (← Value.castText (Value.varchar right).toString type.typeId).integerContent with
      | some (_, right) => op.onIntegers type type left right
      | none => .error .notCoercable
  | .boolean _ => .error .notComparable

/-- `DECIMAL_MODIFY_FUNC`. -/
def modifyDouble (op : ArithmeticOp) (left : Double) : Value → Except EvalFault Value
  | .tinyint right => .ok (.decimal (op.onDoubles left (Double.ofInt right.toInt)))
  | .smallint right => .ok (.decimal (op.onDoubles left (Double.ofInt right.toInt)))
  | .integer right => .ok (.decimal (op.onDoubles left (Double.ofInt right.toInt)))
  | .bigint right => .ok (.decimal (op.onDoubles left (Double.ofInt right.toInt)))
  | .decimal right => .ok (.decimal (op.onDoubles left right))
  | .varchar right => do
      match ← Value.castText (Value.varchar right).toString .decimal with
      | .decimal right => .ok (.decimal (op.onDoubles left right))
      | _ => .error .notCoercable
  | .boolean _ => .error .notComparable

end ArithmeticOp

namespace Value

/-- `OperateNull`. -/
def operateNull (left right : Value) : Except EvalFault Value :=
  match left.integerContent, left, right.integerContent, right with
  | some (type1, _), _, some (type2, _), _ =>
      .ok ((type1.wider type2).value (type1.wider type2).null)
  | some _, _, _, .decimal _ => .ok (.decimal decimalNull)
  | none, .decimal _, _, _ => .ok (.decimal decimalNull)
  -- "type error", and "OperateNull not implemented".
  | _, _, _, _ => .error .notCoercable

/-- What the operations of the types begin with. -/
def unlessNull (left right : Value) (result : Except EvalFault Value) : Except EvalFault Value :=
  if !left.checkComparable right then .error .notComparable
  else if left.isNull || right.isNull then operateNull left right
  else result

section Arithmetic

variable [DoubleText] [DoubleArithmetic]

/-- The checked operations of a type: the same but for the operator. -/
def operate (op : ArithmeticOp) (left right : Value) : Except EvalFault Value :=
  match left with
  | .tinyint value => unlessNull left right (op.modifyInt .tinyint value.toInt right)
  | .smallint value => unlessNull left right (op.modifyInt .smallint value.toInt right)
  | .integer value => unlessNull left right (op.modifyInt .integer value.toInt right)
  | .bigint value => unlessNull left right (op.modifyInt .bigint value.toInt right)
  | .decimal value => unlessNull left right (op.modifyDouble value right)
  -- "Add not implemented", and the like.
  | .boolean _ | .varchar _ => .error .notCoercable

/-- `Add`. -/
def add (left right : Value) : Except EvalFault Value := operate .add left right

/-- `Subtract`. -/
def subtract (left right : Value) : Except EvalFault Value := operate .subtract left right

/-- `Multiply`. -/
def multiply (left right : Value) : Except EvalFault Value := operate .multiply left right

end Arithmetic

end Value

/-! ## Results on integers -/

namespace IntegerType

variable {type1 type2 : IntegerType} {x y : Int}

/-- A result is kept if it fits in the wider type, and an overflow is reported if not. -/
theorem operateValue_eq {result : Int} {overflows : Int → Bool}
    (hoverflows : overflows (wrap (type1.wider type2).width result) = true ↔
      ¬ Fits (type1.wider type2).width result) :
    operateValue type1 type2 result overflows =
      if Fits (type1.wider type2).width result then .ok ((type1.wider type2).value result)
      else .error .outOfRange := by
  have hwider : (type1.wider type2).width ≤ type1.promotedWidth type2 := by
    rw [width_wider]
    exact le_max_right _ _
  -- the promoted type is wide enough that a narrowed result is the exact one narrowed
  have hwrap1 : wrap type1.width (wrap (type1.promotedWidth type2) result) =
      wrap type1.width result :=
    wrap_wrap ((width_le_wider_left type1 type2).trans hwider) result
  have hwrap2 : wrap type2.width (wrap (type1.promotedWidth type2) result) =
      wrap type2.width result :=
    wrap_wrap ((width_le_wider_right type1 type2).trans hwider) result
  unfold operateValue
  simp only [hwrap1, hwrap2]
  by_cases hfits : Fits (type1.wider type2).width result
  · have hpos := (type1.wider type2).width_pos.trans_le hwider
    rw [if_pos hfits, wrap_of_fits hpos (hfits.mono hwider)]
    have hkept := wrap_of_fits (type1.wider type2).width_pos hfits
    rw [hkept] at hoverflows
    have hnot : overflows result = false := by
      rw [← Bool.not_eq_true]
      exact fun h => hoverflows.mp h hfits
    unfold wider at hkept ⊢
    split at hkept
    next hle => simp [hle, hkept, hnot]
    next hle => simp [hle, hkept, hnot]
  · rw [if_neg hfits]
    -- the check sees every result that the wider type does not hold
    have hfound := hoverflows.mpr hfits
    unfold wider at hfound
    split at hfound
    next hle => simp [hle, hfound]
    next hle => simp [hle, hfound]

variable (hx : type1.InRange x) (hy : type2.InRange y)

include hx hy

theorem addValue_eq :
    addValue type1 type2 x y =
      if Fits (type1.wider type2).width (x + y) then .ok ((type1.wider type2).value (x + y))
      else .error .outOfRange := by
  apply operateValue_eq
  rw [← sum_overflows_iff (width_pos _) (hx.mono (width_le_wider_left type1 type2))
    (hy.mono (width_le_wider_right type1 type2))]
  simp [and_assoc]

theorem subtractValue_eq :
    subtractValue type1 type2 x y =
      if Fits (type1.wider type2).width (x - y) then .ok ((type1.wider type2).value (x - y))
      else .error .outOfRange := by
  apply operateValue_eq
  rw [← difference_overflows_iff (width_pos _) (hx.mono (width_le_wider_left type1 type2))
    (hy.mono (width_le_wider_right type1 type2))]
  simp [and_assoc]

omit hx in
theorem multiplyValue_eq :
    multiplyValue type1 type2 x y =
      if Fits (type1.wider type2).width (x * y) then .ok ((type1.wider type2).value (x * y))
      else .error .outOfRange := by
  apply operateValue_eq
  rw [← product_overflows_iff (width_pos _) (hy.mono (width_le_wider_right type1 type2))]
  simp

end IntegerType

/-- A checked operation on integers is exact, or it reports an overflow of the wider type. -/
theorem ArithmeticOp.onIntegers_eq (op : ArithmeticOp) {type1 type2 : IntegerType} {x y : Int}
    (hx : type1.InRange x) (hy : type2.InRange y) :
    op.onIntegers type1 type2 x y =
      if Fits (type1.wider type2).width (op.exact x y) then
        .ok ((type1.wider type2).value (op.exact x y))
      else .error .outOfRange := by
  cases op with
  | add => exact IntegerType.addValue_eq hx hy
  | subtract => exact IntegerType.subtractValue_eq hx hy
  | multiply => exact IntegerType.multiplyValue_eq hy

namespace Value

variable {left right : Value} {type1 type2 : IntegerType} {x y : Int}

theorem checkComparable_of_integers (hleft : left.integerContent = some (type1, x))
    (hright : right.integerContent = some (type2, y)) : left.checkComparable right = true := by
  unfold checkComparable
  rw [getTypeId_of_integerContent hleft, getTypeId_of_integerContent hright]
  cases type1 <;> cases type2 <;> decide

variable [DoubleText] [DoubleArithmetic]

theorem operate_of_integers (op : ArithmeticOp) (hleft : left.integerContent = some (type1, x))
    (hright : right.integerContent = some (type2, y)) :
    operate op left right = unlessNull left right (op.onIntegers type1 type2 x y) := by
  have hmodify : op.modifyInt type1 x right = op.onIntegers type1 type2 x y := by
    cases right with
    | tinyint content => cases hright; rfl
    | smallint content => cases hright; rfl
    | integer content => cases hright; rfl
    | bigint content => cases hright; rfl
    | boolean content => cases hright
    | decimal content => cases hright
    | varchar content => cases hright
  rw [← hmodify]
  cases left with
  | tinyint content => cases hleft; rfl
  | smallint content => cases hleft; rfl
  | integer content => cases hleft; rfl
  | bigint content => cases hleft; rfl
  | boolean content => cases hleft
  | decimal content => cases hleft
  | varchar content => cases hleft

/-- An operation on two integers that are not NULL. -/
theorem operate_eq (op : ArithmeticOp) (hleft : left.integerContent = some (type1, x))
    (hright : right.integerContent = some (type2, y)) (hleftSome : left.isNull = false)
    (hrightSome : right.isNull = false) :
    operate op left right =
      if Fits (type1.wider type2).width (op.exact x y) then
        .ok ((type1.wider type2).value (op.exact x y))
      else .error .outOfRange := by
  rw [operate_of_integers op hleft hright]
  unfold unlessNull
  rw [checkComparable_of_integers hleft hright, hleftSome, hrightSome]
  exact op.onIntegers_eq ((isNull_eq_false_iff hleft).mp hleftSome)
    ((isNull_eq_false_iff hright).mp hrightSome)

/-- A result in a type: the exact one, or an error because it is outside the range. -/
def IsExact (type : IntegerType) (exact : Int) : Except EvalFault Value → Prop
  | .ok value => value.isNull = false ∧ value.integerContent = some (type, exact)
  | .error fault => fault = .outOfRange ∧ ¬ type.InRange exact

/-- The checked operations are exact but for the result that stands for NULL. -/
theorem operate_isExact_iff (op : ArithmeticOp) (hleft : left.integerContent = some (type1, x))
    (hright : right.integerContent = some (type2, y)) (hleftSome : left.isNull = false)
    (hrightSome : right.isNull = false) :
    IsExact (type1.wider type2) (op.exact x y) (operate op left right) ↔
      op.exact x y ≠ (type1.wider type2).null := by
  rw [operate_eq op hleft hright hleftSome hrightSome]
  by_cases hfits : Fits (type1.wider type2).width (op.exact x y)
  · rw [if_pos hfits]
    have hcontent := integerContent_value_of_fits hfits
    refine (and_iff_left hcontent).trans ?_
    rw [← Bool.not_eq_true, isNull_eq_true_iff hcontent]
  · rw [if_neg hfits]
    refine iff_of_true ⟨rfl, fun hrange => hfits hrange.fits⟩ ?_
    intro heq
    apply hfits
    rw [heq]
    have hhalf := half_pos (type1.wider type2).width
    exact ⟨le_refl _, (neg_neg_of_pos hhalf).trans hhalf⟩

omit [DoubleText] [DoubleArithmetic] in
/-- The largest INTEGER and a TINYINT have no sum, and that is found. -/
theorem operate_isExact_iff_integerMax :
    let _ := noDoubleText
    let _ := noDoubleArithmetic
    IsExact .integer (2 ^ 31) (add (.integer 2147483647) (.tinyint 1)) ∧
      add (.integer 2147483647) (.tinyint 1) = .error .outOfRange := by
  intro _ _
  have hleft : (Value.integer 2147483647).integerContent = some (.integer, 2147483647) := rfl
  have hright : (Value.tinyint 1).integerContent = some (.tinyint, 1) := rfl
  exact ⟨(operate_isExact_iff .add hleft hright rfl rfl).mpr (by decide), rfl⟩

omit [DoubleText] [DoubleArithmetic] in
/-- The sum of two TINYINTs that are not NULL is NULL, and it is the number `-128`. -/
theorem tinyintSum_not_isExact :
    let _ := noDoubleText
    let _ := noDoubleArithmetic
    (Value.tinyint (-64)).integerContent = some (.tinyint, -64) ∧
      (Value.tinyint (-64)).isNull = false ∧
      add (.tinyint (-64)) (.tinyint (-64)) = .ok (.tinyint Int8.minValue) ∧
      ¬ IsExact .tinyint (-64 + -64) (add (.tinyint (-64)) (.tinyint (-64))) := by
  intro _ _
  have hsum : add (.tinyint (-64)) (.tinyint (-64)) = .ok (.tinyint Int8.minValue) := rfl
  refine ⟨rfl, rfl, hsum, ?_⟩
  rw [hsum]
  intro h
  exact absurd h.1 (by decide)

end Value

end BusTub
