import BusTub.Types.ComparisonOrder
import BusTub.Types.IntegerArithmetic

/-! # The lesser and the greater one of two values

`Min` and `Max`. Of two integers that are not NULL they give the one that is sought,
whatever its type is.
-/

namespace BusTub

open WrapAround

namespace Value

variable [DoubleText]

/-- What `Min` and `Max` do: the left value if the comparison holds, and else the right one. -/
def choose (op : ComparisonType) (left right : Value) : Except EvalFault Value :=
  unlessNull left right do
    match ← compare op left right with
    | .cmpTrue => .ok left
    | _ => .ok right

/-- `Min`. -/
def min (left right : Value) : Except EvalFault Value :=
  match left with
  | .tinyint _ | .smallint _ | .integer _ | .bigint _ => choose .lessThan left right
  | .decimal _ => choose .lessThanOrEqual left right
  | .varchar _ => choose .lessThan left right
  -- "Min not implemented".
  | .boolean _ => .error .notCoercable

/-- `Max`. -/
def max (left right : Value) : Except EvalFault Value :=
  match left with
  | .tinyint _ | .smallint _ | .integer _ | .bigint _ => choose .greaterThanOrEqual left right
  | .decimal _ => choose .greaterThanOrEqual left right
  | .varchar _ => choose .greaterThan left right
  -- "Max not implemented".
  | .boolean _ => .error .notCoercable

variable {left right : Value} {type1 type2 : IntegerType} {x y : Int}
  (hleft : left.integerContent = some (type1, x)) (hright : right.integerContent = some (type2, y))
  (hleftSome : left.isNull = false) (hrightSome : right.isNull = false)

include hleft hright hleftSome hrightSome

theorem choose_eq (op : ComparisonType) :
    choose op left right = .ok (if op.int x y then left else right) := by
  have hcompare := differ_integers hleft hleftSome hright hrightSome op
  rw [← int_sub] at hcompare
  unfold choose unlessNull
  rw [checkComparable_of_integers hleft hright, hleftSome, hrightSome, hcompare]
  cases op.int x y <;> rfl

theorem min_eq : min left right = .ok (if x < y then left else right) := by
  have hchoose := choose_eq hleft hright hleftSome hrightSome .lessThan
  have hint : ComparisonType.lessThan.int x y = decide (x < y) := rfl
  rw [hint] at hchoose
  simp only [decide_eq_true_eq] at hchoose
  rw [← hchoose]
  cases left with
  | boolean content => cases hleft
  | decimal content => cases hleft
  | varchar content => cases hleft
  | _ => rfl

theorem max_eq : max left right = .ok (if y ≤ x then left else right) := by
  have hchoose := choose_eq hleft hright hleftSome hrightSome .greaterThanOrEqual
  have hint : ComparisonType.greaterThanOrEqual.int x y = decide (y ≤ x) := rfl
  rw [hint] at hchoose
  simp only [decide_eq_true_eq] at hchoose
  rw [← hchoose]
  cases left with
  | boolean content => cases hleft
  | decimal content => cases hleft
  | varchar content => cases hleft
  | _ => rfl

end Value

/-! ## Faults of the operations

No operation on values indexes a vector, so that none of them has the fault of an index
beyond the end of one.
-/

namespace Value

/-- A computation that has another fault, if it has one. -/
def StaysInside {α : Type} (result : Except EvalFault α) : Prop := result ≠ .error .noSuchEntry

/-- What `std::stod` throws. -/
def StodThrows [DoubleText] : Prop :=
  ∀ str fault, DoubleText.stod str = .error fault → fault = .invalidArgument ∨ fault = .outOfRange

section Faults

variable {α β : Type}

theorem staysInside_ok (a : α) : StaysInside (.ok a) := by
  intro h
  cases h

theorem staysInside_error {fault : EvalFault} (h : fault ≠ .noSuchEntry) :
    StaysInside (.error fault : Except EvalFault α) :=
  fun heq => h (Except.error.inj heq)

theorem StaysInside.bind {x : Except EvalFault α} {f : α → Except EvalFault β}
    (hx : StaysInside x) (hf : ∀ a, StaysInside (f a)) : StaysInside (x >>= f) := by
  cases x with
  | error fault => exact staysInside_error fun heq => hx (congrArg Except.error heq)
  | ok a => exact hf a

theorem StaysInside.ite {condition : Prop} [Decidable condition] {x y : Except EvalFault α}
    (hx : StaysInside x) (hy : StaysInside y) : StaysInside (if condition then x else y) := by
  split
  · exact hx
  · exact hy

theorem staysInside_stringToInt (width : Nat) (str : List UInt8) :
    StaysInside (stringToInt width str) := by
  unfold stringToInt
  exact (staysInside_error (by decide)).ite
    ((staysInside_error (by decide)).ite (staysInside_ok _))

variable [DoubleText] (hstod : StodThrows)

include hstod

theorem staysInside_castText (str : List UInt8) (typeId : TypeId) :
    StaysInside (castText str typeId) := by
  cases typeId with
  | boolean =>
      exact (staysInside_ok _).ite ((staysInside_ok _).ite (staysInside_error (by decide)))
  | tinyint =>
      apply (staysInside_stringToInt 32 str).bind
      exact fun n => (staysInside_error (by decide)).ite (staysInside_ok _)
  | smallint =>
      apply (staysInside_stringToInt 32 str).bind
      exact fun n => (staysInside_error (by decide)).ite (staysInside_ok _)
  | integer => exact (staysInside_stringToInt 32 str).bind fun n => staysInside_ok _
  | bigint =>
      apply (staysInside_stringToInt 64 str).bind
      exact fun n => (staysInside_error (by decide)).ite (staysInside_ok _)
  | decimal =>
      have hdouble : StaysInside (DoubleText.stod str) := by
        intro h
        rcases hstod str _ h with hfault | hfault <;> cases hfault
      apply hdouble.bind
      exact fun res => (staysInside_error (by decide)).ite (staysInside_ok _)
  | varchar => exact staysInside_error (by decide)

omit hstod [DoubleText] in
theorem staysInside_comparedText (text : Varlen) : StaysInside text.comparedText :=
  (staysInside_ok _).ite (staysInside_error (by decide))

/-- The comparison of a value that is not a VARCHAR casts a VARCHAR to its type. -/
theorem staysInside_compareCast {str : List UInt8} {typeId : TypeId}
    {compareTo : Value → Except EvalFault CmpBool} (h : ∀ value, StaysInside (compareTo value)) :
    StaysInside (castText str typeId >>= compareTo) :=
  (staysInside_castText hstod str typeId).bind h

theorem staysInside_compareInt (op : ComparisonType) (typeId : TypeId) (i : Int) (right : Value) :
    StaysInside (compareInt op typeId i right) := by
  cases right with
  | boolean content => exact staysInside_error (by decide)
  | varchar content =>
      apply staysInside_compareCast hstod
      intro value
      cases value <;> first | exact staysInside_ok _ | exact staysInside_error (by decide)
  | _ => exact staysInside_ok _

theorem staysInside_compareDouble (op : ComparisonType) (d : Double) (right : Value) :
    StaysInside (compareDouble op d right) := by
  cases right with
  | boolean content => exact staysInside_error (by decide)
  | varchar content =>
      apply staysInside_compareCast hstod
      intro value
      cases value <;> first | exact staysInside_ok _ | exact staysInside_error (by decide)
  | _ => exact staysInside_ok _

theorem staysInside_compareBoolean (op : ComparisonType) (b : Int8) (right : Value) :
    StaysInside (compareBoolean op b right) := by
  cases right with
  | boolean content => exact staysInside_ok _
  | varchar content =>
      apply staysInside_compareCast hstod
      intro value
      cases value <;> first | exact staysInside_ok _ | exact staysInside_error (by decide)
  | _ => exact staysInside_error (by decide)

omit hstod in
theorem staysInside_compareVarlen (op : ComparisonType) (text : Varlen) (right : Value) :
    StaysInside (compareVarlen op text right) := by
  have hleft := staysInside_comparedText text
  cases right with
  | varchar content =>
      cases content with
      | none => exact hleft.bind fun str => staysInside_ok _
      | some text' =>
          apply hleft.bind
          exact fun str => (staysInside_comparedText text').bind fun str' => staysInside_ok _
  | _ => exact hleft.bind fun str => staysInside_ok _

theorem staysInside_compare (op : ComparisonType) (left right : Value) :
    StaysInside (compare op left right) := by
  apply (staysInside_error (by decide)).ite
  apply (staysInside_ok _).ite
  cases left with
  | boolean content => exact staysInside_compareBoolean hstod op content right
  | decimal content => exact staysInside_compareDouble hstod op content right
  | varchar content =>
      cases content with
      | none => exact staysInside_ok _
      | some text => exact staysInside_compareVarlen op text right
  | _ => exact staysInside_compareInt hstod op _ _ right

omit hstod [DoubleText] in
theorem staysInside_unlessNull {left right : Value} {result : Except EvalFault Value}
    (h : StaysInside result) : StaysInside (unlessNull left right result) := by
  have hnull : StaysInside (operateNull left right) := by
    unfold operateNull
    split <;> first | exact staysInside_ok _ | exact staysInside_error (by decide)
  exact (staysInside_error (by decide)).ite (hnull.ite h)

theorem staysInside_choose (op : ComparisonType) (left right : Value) :
    StaysInside (choose op left right) := by
  apply staysInside_unlessNull
  apply (staysInside_compare hstod op left right).bind
  intro truth
  cases truth <;> exact staysInside_ok _

theorem staysInside_min (left right : Value) : StaysInside (min left right) := by
  cases left with
  | boolean content => exact staysInside_error (by decide)
  | _ => exact staysInside_choose hstod _ _ _

theorem staysInside_max (left right : Value) : StaysInside (max left right) := by
  cases left with
  | boolean content => exact staysInside_error (by decide)
  | _ => exact staysInside_choose hstod _ _ _

omit hstod [DoubleText] in
theorem staysInside_onIntegers (op : ArithmeticOp) (type1 type2 : IntegerType) (x y : Int) :
    StaysInside (op.onIntegers type1 type2 x y) := by
  have hoperate : ∀ result overflows,
      StaysInside (IntegerType.operateValue type1 type2 result overflows) := by
    intro result overflows
    have hresult : ∀ {condition : Bool} {value : Value},
        StaysInside (if condition then .error .outOfRange else .ok value) :=
      (staysInside_error (by decide)).ite (staysInside_ok _)
    exact (staysInside_error (by decide)).ite (hresult.ite hresult)
  cases op with
  | add =>
      change StaysInside (IntegerType.addValue type1 type2 x y)
      exact hoperate _ _
  | subtract =>
      change StaysInside (IntegerType.subtractValue type1 type2 x y)
      exact hoperate _ _
  | multiply =>
      change StaysInside (IntegerType.multiplyValue type1 type2 x y)
      exact hoperate _ _

variable [DoubleArithmetic]

theorem staysInside_operate (op : ArithmeticOp) (left right : Value) :
    StaysInside (operate op left right) := by
  have hint : ∀ type i, StaysInside (op.modifyInt type i right) := by
    intro type i
    cases right with
    | boolean content => exact staysInside_error (by decide)
    | decimal content => exact staysInside_ok _
    | varchar content =>
        apply (staysInside_castText hstod _ _).bind
        intro value
        split
        · exact staysInside_onIntegers op _ _ _ _
        · exact staysInside_error (by decide)
    | _ => exact staysInside_onIntegers op _ _ _ _
  have hdouble : ∀ d, StaysInside (op.modifyDouble d right) := by
    intro d
    cases right with
    | boolean content => exact staysInside_error (by decide)
    | varchar content =>
        apply (staysInside_castText hstod _ _).bind
        intro value
        cases value <;> first | exact staysInside_ok _ | exact staysInside_error (by decide)
    | _ => exact staysInside_ok _
  cases left with
  | boolean content => exact staysInside_error (by decide)
  | varchar content => exact staysInside_error (by decide)
  | decimal content => exact staysInside_unlessNull (hdouble _)
  | _ => exact staysInside_unlessNull (hint _ _)

end Faults

end Value

end BusTub
