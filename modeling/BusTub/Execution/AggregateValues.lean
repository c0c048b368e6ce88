import BusTub.Execution.AggregateKeys

/-! # The values of the aggregates

Every aggregate starts with an INTEGER, and takes the values of the rows one after the
other. A sum that is the number of NULL is NULL from then on, and the least and the
greatest values start with the bounds of INTEGER, which a BIGINT may be beyond.
-/

namespace BusTub

open SimpleAggregationHashTable WrapAround

namespace Value

/-- The number of a value of an integer type. -/
def number (value : Value) : Int := (value.integerContent.map Prod.snd).getD 0

/-- The type of a value of an integer type. -/
def numberType (value : Value) : IntegerType := (value.integerContent.map Prod.fst).getD .integer

/-- A value of an integer type. -/
def IsInteger (value : Value) : Prop := value.integerContent = some (value.numberType, value.number)

theorem isInteger_of_integerContent {value : Value} {type : IntegerType} {n : Int}
    (h : value.integerContent = some (type, n)) :
    value.IsInteger ∧ value.numberType = type ∧ value.number = n := by
  unfold IsInteger numberType number
  rw [h]
  exact ⟨rfl, rfl, rfl⟩

/-- The type of what two values are combined to. -/
def widerType (left right : Value) : IntegerType := left.numberType.wider right.numberType

theorem unlessNull_of_integers {left right : Value} (hleft : left.IsInteger)
    (hright : right.IsInteger) (result : Except EvalFault Value) :
    unlessNull left right result =
      if left.isNull || right.isNull then
        .ok ((widerType left right).value (widerType left right).null)
      else result := by
  have hnull : operateNull left right =
      .ok ((widerType left right).value (widerType left right).null) := by
    unfold operateNull
    rw [hleft, hright]
    rfl
  unfold unlessNull
  rw [checkComparable_of_integers hleft hright, hnull]
  rfl

end Value

/-! ## One aggregate -/

/-- An aggregate and the value that a row has for it. -/
structure Combination where
  aggType : AggregationType
  old : Value
  value : Value
  deriving DecidableEq

namespace Combination

/-- What is combined with the aggregate: a count takes a 1. -/
def input (c : Combination) : Value :=
  match c.aggType with
  | .countAggregate => .integer 1
  | _ => c.value

/-- The aggregate is a total. -/
def isTotal (c : Combination) : Bool :=
  match c.aggType with
  | .countAggregate | .sumAggregate => true
  | .minAggregate | .maxAggregate => false

/-- A total that leaves the range of its type. -/
def Overflows (c : Combination) : Prop :=
  c.isTotal = true ∧ (c.old.isNull || c.input.isNull) = false ∧
    ¬ Fits (Value.widerType c.old c.input).width (c.old.number + c.input.number)

instance (c : Combination) : Decidable c.Overflows := inferInstanceAs (Decidable (_ ∧ _))

/-- The aggregate after that. -/
def next (c : Combination) : Value :=
  let type := Value.widerType c.old c.input
  if c.old.isNull || c.input.isNull then type.value type.null
  else
    match c.aggType with
    | .countAggregate | .sumAggregate => type.value (c.old.number + c.input.number)
    | .minAggregate => if c.old.number < c.input.number then c.old else c.input
    | .maxAggregate => if c.input.number ≤ c.old.number then c.old else c.input

variable {c : Combination}

theorem isInteger_input (h : c.value.IsInteger) : c.input.IsInteger := by
  unfold input
  cases c.aggType with
  | countAggregate => rfl
  | _ => exact h

theorem isInteger_next (hold : c.old.IsInteger) (hvalue : c.value.IsInteger) :
    c.next.IsInteger := by
  have hinput := isInteger_input hvalue
  have hmade : ∀ type n, (IntegerType.value type n).IsInteger := fun type n =>
    (Value.isInteger_of_integerContent (Value.integerContent_value type n)).1
  unfold next
  dsimp only
  split
  · exact hmade _ _
  · split
    · exact hmade _ _
    · exact hmade _ _
    · split
      · exact hold
      · exact hinput
    · split
      · exact hold
      · exact hinput

/-- With a NULL the aggregate is NULL from then on. -/
theorem next_of_null (hnull : (c.old.isNull || c.input.isNull) = true) :
    c.next = (Value.widerType c.old c.input).value (Value.widerType c.old c.input).null := by
  unfold next
  dsimp only
  rw [if_pos hnull]

theorem next_of_total (htotal : c.isTotal = true)
    (hnull : (c.old.isNull || c.input.isNull) = false) :
    c.next = (Value.widerType c.old c.input).value (c.old.number + c.input.number) := by
  obtain ⟨aggType, old, value⟩ := c
  unfold next
  dsimp only
  rw [hnull, if_neg Bool.false_ne_true]
  cases aggType with
  | countAggregate => rfl
  | sumAggregate => rfl
  | minAggregate => cases htotal
  | maxAggregate => cases htotal

theorem next_min {old value : Value} (hnull : (old.isNull || value.isNull) = false) :
    next ⟨.minAggregate, old, value⟩ = if old.number < value.number then old else value := by
  change (if old.isNull || value.isNull then _ else _) = _
  rw [hnull]
  rfl

theorem next_max {old value : Value} (hnull : (old.isNull || value.isNull) = false) :
    next ⟨.maxAggregate, old, value⟩ = if value.number ≤ old.number then old else value := by
  change (if old.isNull || value.isNull then _ else _) = _
  rw [hnull]
  rfl

variable [DoubleText] [DoubleArithmetic]

theorem combineOne_of_total (htotal : c.isTotal = true) :
    combineOne c.aggType c.old c.value = c.old.add c.input := by
  obtain ⟨aggType, old, value⟩ := c
  cases aggType with
  | countAggregate => rfl
  | sumAggregate => rfl
  | minAggregate => cases htotal
  | maxAggregate => cases htotal

omit [DoubleArithmetic] in
/-- The extremes of two integers, one of which is NULL. -/
theorem choose_of_null {left right : Value} (op : ComparisonType) (hleft : left.IsInteger)
    (hright : right.IsInteger) (hnull : (left.isNull || right.isNull) = true) :
    Value.choose op left right =
      .ok ((Value.widerType left right).value (Value.widerType left right).null) := by
  unfold Value.choose
  rw [Value.unlessNull_of_integers hleft hright, if_pos hnull]

theorem combineOne_of_null (hold : c.old.IsInteger) (hvalue : c.value.IsInteger)
    (hnull : (c.old.isNull || c.input.isNull) = true) :
    combineOne c.aggType c.old c.value = .ok c.next := by
  have hinput := isInteger_input hvalue
  rw [next_of_null hnull]
  cases htotal : c.isTotal with
  | true =>
      rw [combineOne_of_total htotal, Value.add, Value.operate_of_integers .add hold hinput,
        Value.unlessNull_of_integers hold hinput, if_pos hnull]
  | false =>
      -- Min() and Max() of a null are the null of the wider type, before anything is compared
      obtain ⟨aggType, old, value⟩ := c
      have hcontent : old.integerContent = some (old.numberType, old.number) := hold
      cases aggType with
      | countAggregate => cases htotal
      | sumAggregate => cases htotal
      | minAggregate =>
          change old.min value = _
          rw [← choose_of_null .lessThan hold hinput hnull]
          cases old with
          | boolean content => cases hcontent
          | decimal content => cases hcontent
          | varchar content => cases hcontent
          | _ => rfl
      | maxAggregate =>
          change old.max value = _
          rw [← choose_of_null .greaterThanOrEqual hold hinput hnull]
          cases old with
          | boolean content => cases hcontent
          | decimal content => cases hcontent
          | varchar content => cases hcontent
          | _ => rfl

theorem combineOne_of_some (hold : c.old.IsInteger) (hvalue : c.value.IsInteger)
    (hnull : (c.old.isNull || c.input.isNull) = false) :
    combineOne c.aggType c.old c.value =
      if c.Overflows then .error .outOfRange else .ok c.next := by
  have hinput := isInteger_input hvalue
  obtain ⟨hsome, hsome'⟩ := Bool.or_eq_false_iff.mp hnull
  cases htotal : c.isTotal with
  | true =>
      have hexact : c.old.add c.input = if Fits (Value.widerType c.old c.input).width
          (c.old.number + c.input.number) then .ok ((Value.widerType c.old c.input).value
            (c.old.number + c.input.number)) else .error .outOfRange :=
        Value.operate_eq .add hold hinput hsome hsome'
      rw [combineOne_of_total htotal, hexact, next_of_total htotal hnull]
      -- the sum of two numbers is thrown away when the wider type does not hold it
      by_cases hover : c.Overflows
      · rw [if_pos hover, if_neg hover.2.2]
      · have hfits : Fits (Value.widerType c.old c.input).width
            (c.old.number + c.input.number) := by
          by_contra hfits
          exact hover ⟨htotal, hnull, hfits⟩
        rw [if_neg hover, if_pos hfits]
  | false =>
      -- neither Min() nor Max() overflows
      have hstays : ¬ c.Overflows := by
        intro h
        rw [h.1] at htotal
        cases htotal
      rw [if_neg hstays]
      obtain ⟨aggType, old, value⟩ := c
      cases aggType with
      | countAggregate => cases htotal
      | sumAggregate => cases htotal
      | minAggregate =>
          have hboth : (old.isNull || value.isNull) = false := hnull
          rw [next_min hboth]
          exact Value.min_eq hold hinput hsome hsome'
      | maxAggregate =>
          have hboth : (old.isNull || value.isNull) = false := hnull
          rw [next_max hboth]
          exact Value.max_eq hold hinput hsome hsome'

/-- An aggregate of an integer type takes a value of an integer type. -/
theorem combineOne_eq (hold : c.old.IsInteger) (hvalue : c.value.IsInteger) :
    combineOne c.aggType c.old c.value =
      if c.Overflows then .error .outOfRange else .ok c.next := by
  cases hnull : (c.old.isNull || c.input.isNull) with
  | true =>
      have hstays : ¬ c.Overflows := by
        rintro ⟨-, hsome, -⟩
        rw [hnull] at hsome
        cases hsome
      rw [if_neg hstays]
      exact combineOne_of_null hold hvalue hnull
  | false => exact combineOne_of_some hold hvalue hnull

end Combination

/-! ## The numbers that the aggregates stand for -/

/-- The number is the count, the sum, the least or the greatest one of the numbers. -/
def AggregationType.IsExact (aggType : AggregationType) (numbers : List Int) (n : Int) : Prop :=
  match aggType with
  | .countAggregate => n = numbers.length
  | .sumAggregate => n = numbers.sum
  | .minAggregate => n ∈ numbers ∧ ∀ x ∈ numbers, n ≤ x
  | .maxAggregate => n ∈ numbers ∧ ∀ x ∈ numbers, x ≤ n

/-- The value is a number, the exact one for the numbers of the inputs. -/
def IsAggregate (aggType : AggregationType) (inputs : List Value) (value : Value) : Prop :=
  ∃ n, value.number? = some n ∧ aggType.IsExact (inputs.filterMap Value.number?) n

namespace Value

variable {value : Value}

theorem number?_of_isInteger (h : value.IsInteger) :
    value.number? = if value.isNull then none else some value.number :=
  number?_of_integerContent h

theorem number?_eq_some (h : value.IsInteger) (hsome : value.isNull = false) :
    value.number? = some value.number := by
  rw [number?_of_isInteger h, hsome]
  rfl

theorem number_eq_of_number? {n : Int} (h : value.IsInteger) (hnumber : value.number? = some n) :
    value.isNull = false ∧ value.number = n := by
  rw [number?_of_isInteger h] at hnumber
  cases hnull : value.isNull with
  | true =>
      rw [hnull] at hnumber
      cases hnumber
  | false =>
      rw [hnull] at hnumber
      exact ⟨rfl, Option.some.inj hnumber⟩

end Value

namespace Combination

/-- What keeps an aggregate exact: a sum is not the number of NULL, and the first value of a group
is within the bounds with which its extremes start. -/
def StaysExact (found : Bool) (c : Combination) : Prop :=
  (c.aggType = .sumAggregate →
    c.old.number + c.value.number ≠ (Value.widerType c.old c.value).null) ∧
  (found = false →
    (c.aggType = .minAggregate → c.value.number ≤ 2 ^ 31 - 1) ∧
    (c.aggType = .maxAggregate → -(2 ^ 31 - 1) ≤ c.value.number))

instance (found : Bool) (c : Combination) : Decidable (c.StaysExact found) :=
  inferInstanceAs (Decidable ((_ → _) ∧ (_ → (_ → _) ∧ (_ → _))))

variable {c : Combination}

/-- A total that stays in its range is a number, unless it is that of NULL. -/
theorem number?_next_of_total (htotal : c.isTotal = true)
    (hnull : (c.old.isNull || c.input.isNull) = false) (hstays : ¬ c.Overflows) :
    c.next.number? =
      if c.old.number + c.input.number = (Value.widerType c.old c.input).null then none
      else some (c.old.number + c.input.number) := by
  have hfits : Fits (Value.widerType c.old c.input).width (c.old.number + c.input.number) := by
    by_contra hfits
    exact hstays ⟨htotal, hnull, hfits⟩
  have hcontent := Value.integerContent_value_of_fits hfits
  rw [next_of_total htotal hnull, Value.number?_of_integerContent hcontent]
  exact if_congr (Value.isNull_eq_true_iff hcontent) rfl rfl

theorem null_neg (type : IntegerType) : type.null < 0 := neg_neg_of_pos (half_pos type.width)

/-- An exact count stays exact. -/
theorem isAggregate_count {old value : Value} {inputs : List Value}
    (holdSome : old.isNull = false) (hnumber : old.number = (inputs.filterMap Value.number?).length)
    (hvalue : value.number? = some value.number)
    (hstays : ¬ (⟨.countAggregate, old, value⟩ : Combination).Overflows) :
    IsAggregate .countAggregate (inputs ++ [value]) (next ⟨.countAggregate, old, value⟩) := by
  have hnull : (old.isNull || (Value.integer 1).isNull) = false := by
    rw [holdSome]
    rfl
  have hnext := number?_next_of_total (c := ⟨.countAggregate, old, value⟩) rfl hnull hstays
  have hone : (Value.integer 1).number = 1 := rfl
  have hsome : ¬ (old.number + (Value.integer 1).number =
      (Value.widerType old (.integer 1)).null) := by
    have hneg := null_neg (Value.widerType old (.integer 1))
    rw [hone, hnumber]
    omega
  refine ⟨_, hnext.trans (if_neg hsome), ?_⟩
  change old.number + (Value.integer 1).number = _
  rw [List.filterMap_append, List.length_append, hone, hnumber]
  simp [hvalue]

section Some

variable {old value : Value} {inputs : List Value} (hold : old.IsInteger)
  (holdSome : old.isNull = false) (hvalue : value.IsInteger) (hvalueSome : value.isNull = false)

include hvalue hvalueSome

theorem filterMap_number?_append : (inputs ++ [value]).filterMap Value.number? =
    inputs.filterMap Value.number? ++ [value.number] := by
  rw [List.filterMap_append]
  simp [Value.number?_eq_some hvalue hvalueSome]

include holdSome

/-- A sum stays exact when it is not the number of NULL. -/
theorem isAggregate_sum_iff (hnumber : old.number = (inputs.filterMap Value.number?).sum)
    (hstays : ¬ (⟨.sumAggregate, old, value⟩ : Combination).Overflows) :
    IsAggregate .sumAggregate (inputs ++ [value]) (next ⟨.sumAggregate, old, value⟩) ↔
      old.number + value.number ≠ (Value.widerType old value).null := by
  have hnull : (old.isNull || value.isNull) = false := by
    rw [holdSome, hvalueSome]
    rfl
  have hnext : (next ⟨.sumAggregate, old, value⟩).number? =
      if old.number + value.number = (Value.widerType old value).null then none
      else some (old.number + value.number) :=
    number?_next_of_total (c := ⟨.sumAggregate, old, value⟩) rfl hnull hstays
  unfold IsAggregate
  rw [hnext, filterMap_number?_append hvalue hvalueSome]
  by_cases hsum : old.number + value.number = (Value.widerType old value).null
  · rw [if_pos hsum]
    refine iff_of_false ?_ fun hne => hne hsum
    rintro ⟨n, hn, -⟩
    cases hn
  · rw [if_neg hsum]
    refine iff_of_true ⟨_, rfl, ?_⟩ hsum
    change _ = (inputs.filterMap Value.number? ++ [value.number]).sum
    rw [List.sum_append, List.sum_singleton, hnumber]

include hold

theorem number?_next_min : (next ⟨.minAggregate, old, value⟩).number? =
    some (if old.number < value.number then old.number else value.number) := by
  have hnull : (old.isNull || value.isNull) = false := by
    rw [holdSome, hvalueSome]
    rfl
  rw [next_min hnull]
  split
  · exact Value.number?_eq_some hold holdSome
  · exact Value.number?_eq_some hvalue hvalueSome

theorem number?_next_max : (next ⟨.maxAggregate, old, value⟩).number? =
    some (if value.number ≤ old.number then old.number else value.number) := by
  have hnull : (old.isNull || value.isNull) = false := by
    rw [holdSome, hvalueSome]
    rfl
  rw [next_max hnull]
  split
  · exact Value.number?_eq_some hold holdSome
  · exact Value.number?_eq_some hvalue hvalueSome

/-- A least number stays exact. -/
theorem isAggregate_min (h : AggregationType.minAggregate.IsExact
    (inputs.filterMap Value.number?) old.number) :
    IsAggregate .minAggregate (inputs ++ [value]) (next ⟨.minAggregate, old, value⟩) := by
  refine ⟨_, number?_next_min hold holdSome hvalue hvalueSome, ?_⟩
  obtain ⟨hmem, hleast⟩ := h
  rw [filterMap_number?_append hvalue hvalueSome]
  change _ ∈ _ ∧ ∀ x ∈ _, _ ≤ x
  rw [List.forall_mem_append, List.forall_mem_singleton, List.mem_append, List.mem_singleton]
  split
  next hless => exact ⟨Or.inl hmem, hleast, hless.le⟩
  next hnot =>
    exact ⟨Or.inr rfl, fun x hx => (not_lt.mp hnot).trans (hleast x hx), le_refl value.number⟩

/-- A greatest number stays exact. -/
theorem isAggregate_max (h : AggregationType.maxAggregate.IsExact
    (inputs.filterMap Value.number?) old.number) :
    IsAggregate .maxAggregate (inputs ++ [value]) (next ⟨.maxAggregate, old, value⟩) := by
  refine ⟨_, number?_next_max hold holdSome hvalue hvalueSome, ?_⟩
  obtain ⟨hmem, hgreatest⟩ := h
  rw [filterMap_number?_append hvalue hvalueSome]
  change _ ∈ _ ∧ ∀ x ∈ _, x ≤ _
  rw [List.forall_mem_append, List.forall_mem_singleton, List.mem_append, List.mem_singleton]
  split
  next hle => exact ⟨Or.inl hmem, hgreatest, hle⟩
  next hnot =>
    exact ⟨Or.inr rfl, fun x hx => (hgreatest x hx).trans (not_le.mp hnot).le,
      le_refl value.number⟩

end Some

/-- An extreme of one number is that number. -/
theorem isAggregate_singleton_iff {aggType : AggregationType} {value result : Value} {n : Int}
    (haggType : aggType = .minAggregate ∨ aggType = .maxAggregate)
    (hvalue : value.number? = some value.number) (hresult : result.number? = some n) :
    IsAggregate aggType [value] result ↔ n = value.number := by
  have hnumbers : [value].filterMap Value.number? = [value.number] := by
    simp [hvalue]
  have hexact : aggType.IsExact [value.number] n ↔ n = value.number := by
    rcases haggType with rfl | rfl
    · simp +contextual [AggregationType.IsExact]
    · simp +contextual [AggregationType.IsExact]
  unfold IsAggregate
  rw [hnumbers, hresult, ← hexact]
  constructor
  · rintro ⟨m, hm, h⟩
    exact Option.some.inj hm ▸ h
  · exact fun h => ⟨n, rfl, h⟩

/-- An exact aggregate that takes one value more. -/
theorem isAggregate_next_iff {inputs : List Value} (hold : c.old.IsInteger)
    (hvalue : c.value.IsInteger) (hvalueSome : c.value.isNull = false) (hstays : ¬ c.Overflows)
    (h : IsAggregate c.aggType inputs c.old) :
    IsAggregate c.aggType (inputs ++ [c.value]) c.next ↔ c.StaysExact true := by
  obtain ⟨aggType, old, value⟩ := c
  obtain ⟨n, hn, hexact⟩ := h
  obtain ⟨holdSome, hnumber⟩ := Value.number_eq_of_number? hold hn
  rw [← hnumber] at hexact
  cases aggType with
  | countAggregate =>
      refine iff_of_true (isAggregate_count holdSome hexact
        (Value.number?_eq_some hvalue hvalueSome) hstays) ?_
      simp [StaysExact]
  | sumAggregate =>
      rw [isAggregate_sum_iff holdSome hvalue hvalueSome hexact hstays]
      simp [StaysExact]
  | minAggregate =>
      refine iff_of_true (isAggregate_min hold holdSome hvalue hvalueSome hexact) ?_
      simp [StaysExact]
  | maxAggregate =>
      refine iff_of_true (isAggregate_max hold holdSome hvalue hvalueSome hexact) ?_
      simp [StaysExact]

/-- The first value of a group. -/
theorem isAggregate_first_iff (hvalue : c.value.IsInteger) (hvalueSome : c.value.isNull = false)
    (hstays : ¬ c.Overflows)
    (hold : generateInitialAggregateValue [c.aggType] = [c.old]) :
    IsAggregate c.aggType [c.value] c.next ↔ c.StaysExact false := by
  obtain ⟨aggType, old, value⟩ := c
  have hsome := Value.number?_eq_some hvalue hvalueSome
  cases aggType with
  | countAggregate =>
      cases hold
      -- a count starts at zero
      have hcount : IsAggregate .countAggregate ([] ++ [value])
          (next ⟨.countAggregate, _, value⟩) :=
        isAggregate_count rfl rfl hsome hstays
      refine iff_of_true hcount ?_
      simp [StaysExact]
  | sumAggregate =>
      cases hold
      have hsum : IsAggregate .sumAggregate ([] ++ [value]) (next ⟨.sumAggregate, _, value⟩) ↔ _ :=
        isAggregate_sum_iff rfl hvalue hvalueSome rfl hstays
      refine hsum.trans ?_
      simp [StaysExact]
  | minAggregate =>
      cases hold
      have hnext : (next ⟨.minAggregate, .integer Int32.maxValue, value⟩).number? = _ :=
        number?_next_min rfl rfl hvalue hvalueSome
      rw [isAggregate_singleton_iff (Or.inl rfl) hsome hnext]
      -- the minimum starts at BUSTUB_INT32_MAX, which a BIGINT can be above
      have hmax : (Value.integer Int32.maxValue).number = 2147483647 := rfl
      rw [hmax]
      unfold StaysExact
      simp only [reduceCtorEq, false_implies, true_and, forall_const, and_true]
      split <;> omega
  | maxAggregate =>
      cases hold
      have hnext : (next ⟨.maxAggregate, .integer (Int32.minValue + 1), value⟩).number? = _ :=
        number?_next_max rfl rfl hvalue hvalueSome
      rw [isAggregate_singleton_iff (Or.inr rfl) hsome hnext]
      -- the maximum starts at BUSTUB_INT32_MIN, the least INTEGER that is not the null
      have hmin : (Value.integer (Int32.minValue + 1)).number = -2147483647 := rfl
      rw [hmin]
      unfold StaysExact
      simp only [reduceCtorEq, false_implies, true_and, forall_const]
      split <;> omega

end Combination

/-! ## All aggregates -/

/-- What holds of the elements of a list by their places. -/
theorem forall_getElem?_iff {α : Type} {l : List α} {p : Nat → α → Prop} {q : α → Prop}
    (h : ∀ i a, l[i]? = some a → (p i a ↔ q a)) :
    (∀ i a, l[i]? = some a → p i a) ↔ ∀ a ∈ l, q a := by
  constructor
  · intro hall a hmem
    obtain ⟨i, hi⟩ := List.mem_iff_getElem?.mp hmem
    exact (h i a hi).mp (hall i a hi)
  · intro hall i a hi
    exact (h i a hi).mpr (hall a (List.mem_of_getElem? hi))

/-- The aggregates of a row with their values. -/
def combinations : List AggregationType → List Value → List Value → List Combination
  | aggType :: aggTypes, old :: result, value :: input =>
      ⟨aggType, old, value⟩ :: combinations aggTypes result input
  | _, _, _ => []

theorem getElem?_combinations (aggTypes : List AggregationType) (result input : List Value)
    (i : Nat) : (combinations aggTypes result input)[i]? =
      match aggTypes[i]?, result[i]?, input[i]? with
      | some aggType, some old, some value => some ⟨aggType, old, value⟩
      | _, _, _ => none := by
  induction aggTypes generalizing result input i with
  | nil => rfl
  | cons aggType aggTypes ih =>
      cases result with
      | nil => cases i <;> simp [combinations]
      | cons old result =>
          cases input with
          | nil => cases i <;> simp [combinations]
          | cons value input =>
              cases i with
              | zero => rfl
              | succ i =>
                  rw [combinations, List.getElem?_cons_succ, ih]
                  rfl

theorem length_next {aggTypes : List AggregationType} {result input : List Value}
    (hresult : result.length = aggTypes.length) (hinput : input.length = aggTypes.length) :
    ((combinations aggTypes result input).map Combination.next).length = aggTypes.length := by
  rw [List.length_map]
  induction aggTypes generalizing result input with
  | nil => rfl
  | cons aggType aggTypes ih =>
      obtain ⟨value, input, rfl⟩ := List.exists_cons_of_length_eq_add_one hinput
      obtain ⟨old, result, rfl⟩ := List.exists_cons_of_length_eq_add_one hresult
      exact congrArg Nat.succ (ih (Nat.succ.inj hresult) (Nat.succ.inj hinput))

theorem isInteger_of_combinations {aggTypes : List AggregationType} {result input : List Value}
    (hresult : ∀ old ∈ result, old.IsInteger) (hinput : ∀ value ∈ input, value.IsInteger) :
    ∀ c ∈ combinations aggTypes result input, c.old.IsInteger ∧ c.value.IsInteger := by
  intro c hmem
  obtain ⟨i, hi⟩ := List.mem_iff_getElem?.mp hmem
  rw [getElem?_combinations] at hi
  split at hi
  next aggType old value _ hold hvalue =>
    cases hi
    exact ⟨hresult old (List.mem_of_getElem? hold), hinput value (List.mem_of_getElem? hvalue)⟩
  next => cases hi

theorem isInteger_initial (aggTypes : List AggregationType) :
    ∀ value ∈ generateInitialAggregateValue aggTypes, value.IsInteger := by
  intro value hmem
  obtain ⟨aggType, -, rfl⟩ := List.mem_map.mp hmem
  cases aggType <;> rfl

/-- Aggregates of integer types take the values of a row, unless a total leaves its range. -/
theorem combineAggregateValues_eq [DoubleText] [DoubleArithmetic]
    {aggTypes : List AggregationType} {input result : List Value}
    (hinput : input.length = aggTypes.length) (hresult : result.length = aggTypes.length)
    (hinputs : ∀ value ∈ input, value.IsInteger) (hresults : ∀ old ∈ result, old.IsInteger) :
    combineAggregateValues aggTypes input result =
      if ∃ c ∈ combinations aggTypes result input, c.Overflows then .error .outOfRange
      else .ok ((combinations aggTypes result input).map Combination.next) := by
  induction aggTypes generalizing input result with
  | nil =>
      rw [List.length_eq_zero_iff.mp hinput, List.length_eq_zero_iff.mp hresult]
      rfl
  | cons aggType aggTypes ih =>
      obtain ⟨value, input, rfl⟩ := List.exists_cons_of_length_eq_add_one hinput
      obtain ⟨old, result, rfl⟩ := List.exists_cons_of_length_eq_add_one hresult
      obtain ⟨hvalue, hinputs⟩ := List.forall_mem_cons.mp hinputs
      obtain ⟨hold, hresults⟩ := List.forall_mem_cons.mp hresults
      -- the aggregates are combined one after the other, and the first overflow ends the row
      have hone : combineOne aggType old value = _ :=
        @Combination.combineOne_eq ⟨aggType, old, value⟩ _ _ hold hvalue
      rw [combineAggregateValues_cons, hone, combinations,
        ih (Nat.succ.inj hinput) (Nat.succ.inj hresult) hinputs hresults]
      simp only [List.exists_mem_cons_iff, List.map_cons]
      by_cases hover : (⟨aggType, old, value⟩ : Combination).Overflows
      · rw [if_pos hover, if_pos (Or.inl hover)]
        rfl
      · rw [if_neg hover]
        by_cases hrest : ∃ c ∈ combinations aggTypes result input, c.Overflows
        · rw [if_pos hrest, if_pos (Or.inr hrest)]
          rfl
        · have hnone : ¬ ((⟨aggType, old, value⟩ : Combination).Overflows ∨
              ∃ c ∈ combinations aggTypes result input, c.Overflows) :=
            not_or.mpr ⟨hover, hrest⟩
          rw [if_neg hrest, if_neg hnone]
          rfl

/-! ## The table and the rows behind it -/

namespace GroupingExecutor

variable [DoubleText]

/-- A row whose aggregated values are of integer types. -/
structure IntegerRow (plan : GroupingPlanNode) (row : Tuple) : Prop extends Readable plan row where
  integers : ∀ value ∈ rowValues plan row, value.IsInteger

/-- The values that the rows of a group have for an aggregate. -/
def groupInputs (plan : GroupingPlanNode) (rows : List Tuple) (key : List Value) (i : Nat) :
    List Value :=
  (rows.filter fun row => sameKeys (rowKey plan row) key).filterMap fun row =>
    (rowValues plan row)[i]?

/-- The aggregates of an entry stand for the values of its group. -/
def Tallies (stands : AggregationType → List Value → Value → Prop) (plan : GroupingPlanNode)
    (rows : List Tuple) (entry : KeyedEntry (List Value)) : Prop :=
  ∀ i aggType, plan.aggTypes[i]? = some aggType →
    ∃ value, entry.value[i]? = some value ∧
      stands aggType (groupInputs plan rows entry.key i) value

/-- The table has one entry for each row, and nothing but integers as aggregates. -/
structure Entered (plan : GroupingPlanNode) (done : List Tuple)
    (aht : List (KeyedEntry (List Value))) : Prop where
  readable : ∀ row ∈ done, Readable plan row
  keyed : KeyedEntry.Keyed (keyTypes plan) aht
  equal : ∀ entry ∈ aht, sameKeys entry.key entry.key = true
  apart : aht.Pairwise fun entry entry' => sameKeys entry.key entry'.key = false
  covers : ∀ row ∈ done, ∃ entry ∈ aht, sameKeys (rowKey plan row) entry.key = true
  lengths : ∀ entry ∈ aht, entry.value.length = plan.aggTypes.length
  integers : ∀ entry ∈ aht, ∀ value ∈ entry.value, value.IsInteger

/-- The aggregates that a key is found with. -/
def current (plan : GroupingPlanNode) (aht : List (KeyedEntry (List Value))) (key : List Value) :
    List Value :=
  match aht.find? fun entry => sameKeys key entry.key with
  | some entry => entry.value
  | none => generateInitialAggregateValue plan.aggTypes

/-- The aggregates that a row changes, with its values. -/
def rowCombinations (plan : GroupingPlanNode) (aht : List (KeyedEntry (List Value)))
    (row : Tuple) : List Combination :=
  combinations plan.aggTypes (current plan aht (rowKey plan row)) (rowValues plan row)

variable {plan : GroupingPlanNode} {done : List Tuple} {row : Tuple} {key : List Value}
  {aht before after : List (KeyedEntry (List Value))} {entry : KeyedEntry (List Value)}

theorem groupInputs_append (done : List Tuple) (row : Tuple) (key : List Value) (i : Nat) :
    groupInputs plan (done ++ [row]) key i =
      groupInputs plan done key i ++
        if sameKeys (rowKey plan row) key then (rowValues plan row)[i]?.toList else [] := by
  unfold groupInputs
  rw [List.filter_append, List.filterMap_append, List.filter_singleton]
  cases sameKeys (rowKey plan row) key with
  | false => rfl
  | true =>
      cases hvalue : (rowValues plan row)[i]? <;> simp [hvalue]

theorem current_of_found (hbefore : ∀ other ∈ before, sameKeys key other.key = false)
    (hsame : sameKeys key entry.key = true) :
    current plan (before ++ entry :: after) key = entry.value := by
  have hfind : (before ++ entry :: after).find? (fun entry => sameKeys key entry.key) =
      some entry := by
    rw [List.find?_eq_some_iff_append]
    refine ⟨hsame, before, after, rfl, ?_⟩
    intro other hother
    rw [hbefore other hother]
    rfl
  unfold current
  rw [hfind]

theorem current_of_none (hnone : ∀ other ∈ aht, sameKeys key other.key = false) :
    current plan aht key = generateInitialAggregateValue plan.aggTypes := by
  have hfind : aht.find? (fun entry => sameKeys key entry.key) = none := by
    rw [List.find?_eq_none]
    intro other hother
    rw [hnone other hother]
    exact Bool.false_ne_true
  unfold current
  rw [hfind]

/-- What a row with a key that is equal to itself does: a total leaves its range, the entry of
its group is changed, or it gets an entry. -/
inductive StepOf (plan : GroupingPlanNode) (aht : List (KeyedEntry (List Value))) (row : Tuple) :
    Except PlanFault (Unit × List (KeyedEntry (List Value))) → Prop
  | overflow (hover : ∃ c ∈ rowCombinations plan aht row, c.Overflows) :
      StepOf plan aht row (.error (.eval .outOfRange))
  | found {before after : List (KeyedEntry (List Value))} {entry : KeyedEntry (List Value)}
      (hstays : ¬ ∃ c ∈ rowCombinations plan aht row, c.Overflows)
      (hsplit : aht = before ++ entry :: after)
      (hbefore : ∀ other ∈ before, sameKeys (rowKey plan row) other.key = false)
      (hsame : sameKeys (rowKey plan row) entry.key = true) :
      StepOf plan aht row (.ok ((), before ++
        { entry with value := (rowCombinations plan aht row).map Combination.next } :: after))
  | new (hstays : ¬ ∃ c ∈ rowCombinations plan aht row, c.Overflows)
      (hnone : ∀ other ∈ aht, sameKeys (rowKey plan row) other.key = false) :
      StepOf plan aht row (.ok ((), aht ++
        [newEntry (rowKey plan row) ((rowCombinations plan aht row).map Combination.next)]))

theorem Entered.stepOf [DoubleArithmetic] (h : Entered plan done aht)
    (hlength : plan.aggregates.length = plan.aggTypes.length) (hrow : IntegerRow plan row)
    (hdefinite : DefiniteKey (rowKey plan row)) :
    StepOf plan aht row ((table plan).step aht row) := by
  have hkey := keyOfTypes_rowKey hrow.toReadable
  have hvalues := (length_rowValues hrow.toReadable).trans hlength
  rw [table_step hrow.toReadable]
  rcases KeyedEntry.found_or_none (rowKey plan row) aht with
    ⟨before, entry, after, rfl, hbefore, hsame⟩ | hnone
  · -- ht_ has the key: the row is combined with the values of its entry
    have hmem : entry ∈ before ++ entry :: after := List.mem_append_right before List.mem_cons_self
    have hcombine := combineAggregateValues_eq hvalues (h.lengths entry hmem) hrow.integers
      (h.integers entry hmem)
    have hcurrent : combinations plan.aggTypes entry.value (rowValues plan row) =
        rowCombinations plan (before ++ entry :: after) row := by
      unfold rowCombinations
      rw [current_of_found hbefore hsame]
    rw [hcurrent] at hcombine
    rw [insertCombine_found hkey h.keyed hbefore hsame, hcombine]
    by_cases hover : ∃ c ∈ rowCombinations plan (before ++ entry :: after) row, c.Overflows
    · rw [if_pos hover]
      exact .overflow hover
    · rw [if_neg hover]
      exact .found hover rfl hbefore hsame
  · -- ht_ does not: the row is combined with the initial values
    have hcombine := combineAggregateValues_eq hvalues
      (length_generateInitialAggregateValue plan.aggTypes) hrow.integers
      (isInteger_initial plan.aggTypes)
    rw [← current_of_none hnone] at hcombine
    change combineAggregateValues plan.aggTypes (rowValues plan row) (current plan aht
      (rowKey plan row)) = if ∃ c ∈ rowCombinations plan aht row, c.Overflows then _ else
        .ok ((rowCombinations plan aht row).map Combination.next) at hcombine
    rw [insertCombine_new hkey h.keyed hnone ((sameKeys_self_iff hkey).mpr hdefinite),
      ← current_of_none hnone, hcombine]
    by_cases hover : ∃ c ∈ rowCombinations plan aht row, c.Overflows
    · rw [if_pos hover]
      exact .overflow hover
    · rw [if_neg hover]
      exact .new hover hnone

/-- The aggregates that a key is found with are integers. -/
theorem Entered.integerCurrent (h : Entered plan done aht) (key : List Value) :
    (current plan aht key).length = plan.aggTypes.length ∧
      ∀ old ∈ current plan aht key, old.IsInteger := by
  unfold current
  split
  next entry hfind =>
    have hmem := List.mem_of_find?_eq_some hfind
    exact ⟨h.lengths entry hmem, h.integers entry hmem⟩
  next => exact ⟨length_generateInitialAggregateValue _, isInteger_initial _⟩

theorem Entered.integerCombinations (h : Entered plan done aht) (hrow : IntegerRow plan row) :
    ∀ c ∈ rowCombinations plan aht row, c.old.IsInteger ∧ c.value.IsInteger :=
  isInteger_of_combinations (h.integerCurrent _).2 hrow.integers

/-- The values that a row puts into an entry. -/
theorem Entered.next (h : Entered plan done aht)
    (hlength : plan.aggregates.length = plan.aggTypes.length) (hrow : IntegerRow plan row) :
    ((rowCombinations plan aht row).map Combination.next).length = plan.aggTypes.length ∧
      ∀ value ∈ (rowCombinations plan aht row).map Combination.next, value.IsInteger := by
  refine ⟨length_next (h.integerCurrent _).1
    ((length_rowValues hrow.toReadable).trans hlength), ?_⟩
  intro value hmem
  obtain ⟨c, hc, rfl⟩ := List.mem_map.mp hmem
  obtain ⟨hold, hvalue⟩ := h.integerCombinations hrow c hc
  exact Combination.isInteger_next hold hvalue

/-- Only one entry is that of a key. -/
theorem Entered.others (h : Entered plan done (before ++ entry :: after))
    (hkey : KeyOfTypes (keyTypes plan) key) (hsame : sameKeys key entry.key = true) :
    ∀ other ∈ after, sameKeys key other.key = false := by
  intro other hother
  have hequiv := sameKeys_partialEquiv (keyTypes plan)
  have hentry := (h.keyed entry (List.mem_append_right before List.mem_cons_self)).2
  have hotherKey := (h.keyed other
    (List.mem_append_right before (List.mem_cons_of_mem entry hother))).2
  have hafter := (List.pairwise_append.mp h.apart).2.1
  rw [← Bool.not_eq_true]
  intro hfound
  have hboth := hequiv.trans hentry hkey hotherKey (hequiv.symm hkey hentry hsame) hfound
  rw [List.rel_of_pairwise_cons hafter hother] at hboth
  cases hboth

theorem Entered.found (h : Entered plan done (before ++ entry :: after)) (hrow : Readable plan row)
    (hsame : sameKeys (rowKey plan row) entry.key = true) {value : List Value}
    (hlength : value.length = plan.aggTypes.length) (hintegers : ∀ v ∈ value, v.IsInteger) :
    Entered plan (done ++ [row]) (before ++ { entry with value } :: after) := by
  -- what holds of every entry holds after one of them is replaced
  have hreplace : ∀ {P : KeyedEntry (List Value) → Prop},
      (∀ other ∈ before ++ entry :: after, P other) → P { entry with value } →
        ∀ other ∈ before ++ { entry with value } :: after, P other := by
    intro P hall hnew
    rw [List.forall_mem_append, List.forall_mem_cons] at hall ⊢
    exact ⟨hall.1, hnew, hall.2.2⟩
  have hmem : entry ∈ before ++ entry :: after := List.mem_append_right before List.mem_cons_self
  have hmem' : { entry with value } ∈ before ++ { entry with value } :: after :=
    List.mem_append_right before List.mem_cons_self
  refine ⟨?_, ?_, ?_, ?_, ?_, ?_, ?_⟩
  · exact List.forall_mem_append.mpr ⟨h.readable, List.forall_mem_singleton.mpr hrow⟩
  · exact hreplace h.keyed (h.keyed entry hmem)
  · exact hreplace h.equal (h.equal entry hmem)
  · have hapart := h.apart
    rw [List.pairwise_append, List.pairwise_cons] at hapart ⊢
    refine ⟨hapart.1, hapart.2.1, ?_⟩
    intro other hother entry' hentry'
    rcases List.mem_cons.mp hentry' with rfl | hentry'
    · exact hapart.2.2 other hother entry List.mem_cons_self
    · exact hapart.2.2 other hother entry' (List.mem_cons_of_mem _ hentry')
  · rw [List.forall_mem_append, List.forall_mem_singleton]
    refine ⟨?_, _, hmem', hsame⟩
    intro other hother
    obtain ⟨entry', hentry', hsame'⟩ := h.covers other hother
    rcases List.mem_append.mp hentry' with hentry' | hentry'
    · exact ⟨entry', List.mem_append_left _ hentry', hsame'⟩
    · rcases List.mem_cons.mp hentry' with rfl | hentry'
      · exact ⟨_, hmem', hsame'⟩
      · exact ⟨entry', List.mem_append_right _ (List.mem_cons_of_mem _ hentry'), hsame'⟩
  · exact hreplace h.lengths hlength
  · exact hreplace h.integers hintegers

theorem Entered.new (h : Entered plan done aht) (hrow : Readable plan row)
    (hdefinite : DefiniteKey (rowKey plan row))
    (hnone : ∀ other ∈ aht, sameKeys (rowKey plan row) other.key = false) {value : List Value}
    (hlength : value.length = plan.aggTypes.length) (hintegers : ∀ v ∈ value, v.IsInteger) :
    Entered plan (done ++ [row]) (aht ++ [newEntry (rowKey plan row) value]) := by
  have hkey := keyOfTypes_rowKey hrow
  have hself := (sameKeys_self_iff hkey).mpr hdefinite
  have hadd : ∀ {P : KeyedEntry (List Value) → Prop}, (∀ other ∈ aht, P other) →
      P (newEntry (rowKey plan row) value) →
        ∀ other ∈ aht ++ [newEntry (rowKey plan row) value], P other :=
    fun hall hnew => List.forall_mem_append.mpr ⟨hall, List.forall_mem_singleton.mpr hnew⟩
  refine ⟨?_, ?_, ?_, ?_, ?_, ?_, ?_⟩
  · exact List.forall_mem_append.mpr ⟨h.readable, List.forall_mem_singleton.mpr hrow⟩
  · exact hadd h.keyed ⟨rfl, hkey⟩
  · exact hadd h.equal hself
  · rw [List.pairwise_append]
    refine ⟨h.apart, List.pairwise_singleton _ _, ?_⟩
    intro entry hentry entry' hentry'
    rw [List.mem_singleton.mp hentry', ← Bool.not_eq_true]
    intro hsame
    -- one of two equal keys is there before the other
    have hback := (sameKeys_partialEquiv (keyTypes plan)).symm (h.keyed entry hentry).2 hkey hsame
    rw [hnone entry hentry] at hback
    cases hback
  · rw [List.forall_mem_append, List.forall_mem_singleton]
    refine ⟨?_, _, List.mem_append_right _ List.mem_cons_self, hself⟩
    intro other hother
    obtain ⟨entry', hentry', hsame'⟩ := h.covers other hother
    exact ⟨entry', List.mem_append_left _ hentry', hsame'⟩
  · exact hadd h.lengths hlength
  · exact hadd h.integers hintegers

/-- A key without an entry has had no row. -/
theorem Entered.groupInputs_nil (h : Entered plan done aht) (hkey : KeyOfTypes (keyTypes plan) key)
    (hnone : ∀ other ∈ aht, sameKeys key other.key = false) (i : Nat) :
    groupInputs plan done key i = [] := by
  have hfilter : done.filter (fun row => sameKeys (rowKey plan row) key) = [] := by
    rw [List.filter_eq_nil_iff]
    intro row hmem hsame
    have hequiv := sameKeys_partialEquiv (keyTypes plan)
    have hrow := keyOfTypes_rowKey (h.readable row hmem)
    obtain ⟨entry, hentry, hfound⟩ := h.covers row hmem
    have hentryKey := (h.keyed entry hentry).2
    have hboth := hequiv.trans hkey hrow hentryKey (hequiv.symm hrow hkey hsame) hfound
    rw [hnone entry hentry] at hboth
    cases hboth
  unfold groupInputs
  rw [hfilter]
  rfl

variable {stands : AggregationType → List Value → Value → Prop}

/-- The entry of another key keeps what its aggregates stand for. -/
theorem Tallies.other (h : Tallies stands plan done entry)
    (hother : sameKeys (rowKey plan row) entry.key = false) :
    Tallies stands plan (done ++ [row]) entry := by
  intro i aggType htype
  obtain ⟨value, hvalue, hstands⟩ := h i aggType htype
  refine ⟨value, hvalue, ?_⟩
  rw [groupInputs_append, hother, if_neg Bool.false_ne_true, List.append_nil]
  exact hstands

/-- The aggregates of the entry for the key of a row stand for one value more. -/
theorem tallies_next_iff (hlength : plan.aggregates.length = plan.aggTypes.length)
    (hrow : Readable plan row)
    (hcurrent : (current plan aht (rowKey plan row)).length = plan.aggTypes.length)
    (hsame : sameKeys (rowKey plan row) entry.key = true)
    (hvalue : entry.value = (rowCombinations plan aht row).map Combination.next) :
    Tallies stands plan (done ++ [row]) entry ↔
      ∀ (i : Nat) (c : Combination), (rowCombinations plan aht row)[i]? = some c →
        stands c.aggType (groupInputs plan done entry.key i ++ [c.value]) c.next := by
  have hvalues := (length_rowValues hrow).trans hlength
  unfold Tallies
  apply forall_congr'
  intro i
  rw [hvalue, List.getElem?_map, groupInputs_append, hsame, if_pos rfl]
  unfold rowCombinations
  rw [getElem?_combinations]
  cases htype : plan.aggTypes[i]? with
  | none => simp
  | some aggType =>
      have hi : i < plan.aggTypes.length := (List.getElem?_eq_some_iff.mp htype).1
      rw [List.getElem?_eq_getElem (hcurrent ▸ hi), List.getElem?_eq_getElem (hvalues ▸ hi)]
      simp

/-! ## Exact aggregates -/

/-- The total of a row leaves its range, which is what the executor throws for. -/
def IsOutOfRange (fault : PlanFault) : Prop := fault = .eval .outOfRange

/-- Every row has an entry, and the aggregates of the entries stand for the values of the
groups. -/
structure Tallied (stands : AggregationType → List Value → Value → Prop)
    (plan : GroupingPlanNode) (rows : List Tuple) (aht : List (KeyedEntry (List Value))) :
    Prop where
  covers : ∀ row ∈ rows, ∃ entry ∈ aht, sameKeys (rowKey plan row) entry.key = true
  tallies : ∀ entry ∈ aht, Tallies stands plan rows entry

/-- The table has an entry with the key. -/
def hasKey (aht : List (KeyedEntry (List Value))) (key : List Value) : Bool :=
  aht.any fun entry => sameKeys key entry.key

/-- What a row needs for exact aggregates: a key that is equal to itself, and aggregates that
stay exact, unless a total leaves its range. -/
def TakesExactly (plan : GroupingPlanNode) (aht : List (KeyedEntry (List Value))) (row : Tuple) :
    Prop :=
  DefiniteKey (rowKey plan row) ∧
    ((∃ c ∈ rowCombinations plan aht row, c.Overflows) ∨
      ∀ c ∈ rowCombinations plan aht row, c.StaysExact (hasKey aht (rowKey plan row)))

instance (plan : GroupingPlanNode) (aht : List (KeyedEntry (List Value))) (row : Tuple) :
    Decidable (TakesExactly plan aht row) :=
  inferInstanceAs (Decidable (_ ∧ _))

/-- A row of integers, none of them NULL. -/
structure NumericRow (plan : GroupingPlanNode) (row : Tuple) : Prop extends
    IntegerRow plan row where
  noNull : ∀ value ∈ rowValues plan row, value.isNull = false

theorem getElem?_rowCombinations {i : Nat} {c : Combination}
    (h : (rowCombinations plan aht row)[i]? = some c) :
    plan.aggTypes[i]? = some c.aggType ∧
      (current plan aht (rowKey plan row))[i]? = some c.old ∧
      (rowValues plan row)[i]? = some c.value := by
  unfold rowCombinations at h
  rw [getElem?_combinations] at h
  split at h
  next aggType old value htype hold hvalue =>
    cases h
    exact ⟨htype, hold, hvalue⟩
  next => cases h

/-- The aggregates of the group of a row are exact after it when they stay so. -/
theorem Entered.tallies_found_iff (h : Entered plan done (before ++ entry :: after))
    (htallies : Tallies IsAggregate plan done entry)
    (hlength : plan.aggregates.length = plan.aggTypes.length) (hrow : NumericRow plan row)
    (hstays : ¬ ∃ c ∈ rowCombinations plan (before ++ entry :: after) row, c.Overflows)
    (hbefore : ∀ other ∈ before, sameKeys (rowKey plan row) other.key = false)
    (hsame : sameKeys (rowKey plan row) entry.key = true) :
    Tallies IsAggregate plan (done ++ [row]) { entry with
      value := (rowCombinations plan (before ++ entry :: after) row).map Combination.next } ↔
      ∀ c ∈ rowCombinations plan (before ++ entry :: after) row, c.StaysExact true := by
  have hnext : Tallies IsAggregate plan (done ++ [row]) { entry with
      value := (rowCombinations plan (before ++ entry :: after) row).map Combination.next } ↔ _ :=
    tallies_next_iff hlength hrow.toReadable (h.integerCurrent _).1 hsame rfl
  rw [hnext]
  apply forall_getElem?_iff
  intro i c hc
  obtain ⟨htype, hold, hvalue⟩ := getElem?_rowCombinations hc
  have hmem := List.mem_of_getElem? hc
  obtain ⟨holdInteger, hvalueInteger⟩ := h.integerCombinations hrow.toIntegerRow c hmem
  obtain ⟨old, hentry, hexact⟩ := htallies i c.aggType htype
  rw [current_of_found hbefore hsame, hentry] at hold
  rw [Option.some.inj hold] at hexact
  exact Combination.isAggregate_next_iff holdInteger hvalueInteger
    (hrow.noNull c.value (List.mem_of_getElem? hvalue)) (fun hover => hstays ⟨c, hmem, hover⟩)
    hexact

/-- The aggregates of a new group are exact when its row lets them be so. -/
theorem Entered.tallies_new_iff (h : Entered plan done aht)
    (hlength : plan.aggregates.length = plan.aggTypes.length) (hrow : NumericRow plan row)
    (hdefinite : DefiniteKey (rowKey plan row))
    (hstays : ¬ ∃ c ∈ rowCombinations plan aht row, c.Overflows)
    (hnone : ∀ other ∈ aht, sameKeys (rowKey plan row) other.key = false) :
    Tallies IsAggregate plan (done ++ [row])
      (newEntry (rowKey plan row) ((rowCombinations plan aht row).map Combination.next)) ↔
      ∀ c ∈ rowCombinations plan aht row, c.StaysExact false := by
  have hkey := keyOfTypes_rowKey hrow.toReadable
  have hnext : Tallies IsAggregate plan (done ++ [row]) (newEntry (rowKey plan row)
      ((rowCombinations plan aht row).map Combination.next)) ↔ _ :=
    tallies_next_iff hlength hrow.toReadable (h.integerCurrent _).1
      ((sameKeys_self_iff hkey).mpr hdefinite) rfl
  rw [hnext]
  apply forall_getElem?_iff
  intro i c hc
  obtain ⟨htype, hold, hvalue⟩ := getElem?_rowCombinations hc
  have hmem := List.mem_of_getElem? hc
  obtain ⟨-, hvalueInteger⟩ := h.integerCombinations hrow.toIntegerRow c hmem
  -- without an entry of its key, the row meets the initial values
  have hinitial : generateInitialAggregateValue [c.aggType] = [c.old] := by
    rw [current_of_none hnone, generateInitialAggregateValue, List.getElem?_map, htype] at hold
    exact congrArg (fun value => [value]) (Option.some.inj hold)
  change IsAggregate c.aggType (groupInputs plan done (rowKey plan row) i ++ [c.value]) c.next ↔ _
  rw [h.groupInputs_nil hkey hnone]
  exact Combination.isAggregate_first_iff hvalueInteger
    (hrow.noNull c.value (List.mem_of_getElem? hvalue)) (fun hover => hstays ⟨c, hmem, hover⟩)
    hinitial

/-- The rows that are taken exactly leave exact aggregates behind. -/
structure EnteredExactly (plan : GroupingPlanNode) (done : List Tuple)
    (aht : List (KeyedEntry (List Value))) : Prop extends Entered plan done aht where
  tallies : ∀ entry ∈ aht, Tallies IsAggregate plan done entry

theorem hasKey_found (hsame : sameKeys key entry.key = true) :
    hasKey (before ++ entry :: after) key = true :=
  List.any_eq_true.mpr ⟨entry, List.mem_append_right before List.mem_cons_self, hsame⟩

theorem hasKey_none (hnone : ∀ other ∈ aht, sameKeys key other.key = false) :
    hasKey aht key = false := by
  unfold hasKey
  rw [List.any_eq_false]
  intro other hother
  rw [hnone other hother]
  exact Bool.false_ne_true

variable [DoubleArithmetic]

theorem EnteredExactly.step_of_takesExactly (h : EnteredExactly plan done aht)
    (hlength : plan.aggregates.length = plan.aggTypes.length) (hrow : NumericRow plan row)
    (hexact : TakesExactly plan aht row) :
    (table plan).StepEnds IsOutOfRange (EnteredExactly plan (done ++ [row])) aht row := by
  obtain ⟨hdefinite, hexact⟩ := hexact
  have hstep := h.stepOf hlength hrow.toIntegerRow hdefinite
  obtain ⟨hlengths, hintegers⟩ := h.next hlength hrow.toIntegerRow
  have hrowKey := keyOfTypes_rowKey hrow.toReadable
  unfold Machine.StepEnds
  generalize (table plan).step aht row = outcome at hstep
  cases hstep with
  | overflow hover => exact rfl
  | @found before after entry hstays hsplit hbefore hsame =>
      subst hsplit
      rw [hasKey_found hsame] at hexact
      have htallies := h.tallies
      rw [List.forall_mem_append, List.forall_mem_cons] at htallies
      obtain ⟨hfirst, hentry, hlast⟩ := htallies
      refine ⟨h.found hrow.toReadable hsame hlengths hintegers, ?_⟩
      rw [List.forall_mem_append, List.forall_mem_cons]
      refine ⟨fun other hother => (hfirst other hother).other (hbefore other hother), ?_, ?_⟩
      · apply (h.tallies_found_iff hentry hlength hrow hstays hbefore hsame).mpr
        exact hexact.resolve_left hstays
      · intro other hother
        exact (hlast other hother).other (h.others hrowKey hsame other hother)
  | new hstays hnone =>
      rw [hasKey_none hnone] at hexact
      refine ⟨h.new hrow.toReadable hdefinite hnone hlengths hintegers, ?_⟩
      rw [List.forall_mem_append, List.forall_mem_singleton]
      refine ⟨fun other hother => (h.tallies other hother).other (hnone other hother), ?_⟩
      apply (h.tallies_new_iff hlength hrow hdefinite hstays hnone).mpr
      exact hexact.resolve_left hstays

/-- A row that is not taken exactly leaves a wrong aggregate, is without a group, or indexes
beyond the end. -/
theorem EnteredExactly.step_of_not_takesExactly (h : EnteredExactly plan done aht)
    (hlength : plan.aggregates.length = plan.aggTypes.length) (hrow : NumericRow plan row)
    (hexact : ¬ TakesExactly plan aht row) :
    (table plan).StepEnds (fun fault => ¬ IsOutOfRange fault)
      (fun next => ¬ Tallied IsAggregate plan (done ++ [row]) next) aht row := by
  have hkey := keyOfTypes_rowKey hrow.toReadable
  by_cases hdefinite : DefiniteKey (rowKey plan row)
  · have hstep := h.stepOf hlength hrow.toIntegerRow hdefinite
    unfold Machine.StepEnds
    generalize (table plan).step aht row = outcome at hstep
    cases hstep with
    | overflow hover => exact absurd ⟨hdefinite, Or.inl hover⟩ hexact
    | @found before after entry hstays hsplit hbefore hsame =>
        subst hsplit
        have hentry := h.tallies entry (List.mem_append_right before List.mem_cons_self)
        intro htallied
        apply hexact
        refine ⟨hdefinite, Or.inr ?_⟩
        rw [hasKey_found hsame]
        apply (h.tallies_found_iff hentry hlength hrow hstays hbefore hsame).mp
        exact htallied.tallies _ (List.mem_append_right before List.mem_cons_self)
    | new hstays hnone =>
        intro htallied
        apply hexact
        refine ⟨hdefinite, Or.inr ?_⟩
        rw [hasKey_none hnone]
        apply (h.tallies_new_iff hlength hrow hdefinite hstays hnone).mp
        exact htallied.tallies _ (List.mem_append_right aht List.mem_cons_self)
  · have hunequal : ∀ other, KeyOfTypes (keyTypes plan) other →
        sameKeys (rowKey plan row) other = false := by
      intro other hother
      rw [← Bool.not_eq_true, sameKeys_iff hkey hother]
      exact fun hsame => hdefinite hsame.2.1
    have hnone : ∀ other ∈ aht, sameKeys (rowKey plan row) other.key = false :=
      fun other hother => hunequal other.key (h.keyed other hother).2
    have hvalues := (length_rowValues hrow.toReadable).trans hlength
    unfold Machine.StepEnds
    rw [table_step hrow.toReadable,
      insertCombine_unequal hkey h.keyed hnone (hunequal (rowKey plan row) hkey)]
    cases haggTypes : plan.aggTypes with
    | nil =>
        rw [haggTypes] at hvalues
        rw [List.length_eq_zero_iff.mp hvalues]
        intro htallied
        obtain ⟨entry, hentry, hsame⟩ := htallied.covers row
          (List.mem_append_right done List.mem_cons_self)
        have hnot : sameKeys (rowKey plan row) entry.key = false := by
          rcases List.mem_append.mp hentry with hentry | hentry
          · rcases List.mem_append.mp hentry with hentry | hentry
            · exact hnone entry hentry
            · exact List.mem_singleton.mp hentry ▸ hunequal (rowKey plan row) hkey
          · exact List.mem_singleton.mp hentry ▸ hunequal (rowKey plan row) hkey
        rw [hnot] at hsame
        cases hsame
    | cons aggType aggTypes =>
        rw [haggTypes] at hvalues
        obtain ⟨first, rest, hrest⟩ := List.exists_cons_of_length_eq_add_one hvalues
        rw [hrest, combineAggregateValues_nil]
        intro hrange
        cases hrange

/-- All runs over the rows up to some row end with the exact count, sum, least and greatest number
of every group, or out of range, exactly when every row that is taken lets them. -/
theorem tallied_iff (hlength : plan.aggregates.length = plan.aggTypes.length) {rows : List Tuple}
    (hrows : ∀ row ∈ rows, NumericRow plan row) :
    (∀ before, before <+: rows →
      (table plan).EndsWell IsOutOfRange (Tallied IsAggregate plan) [] before) ↔
      (table plan).Guarded (TakesExactly plan) [] rows := by
  have hnone : ∀ {α : Type} {P : α → Prop}, ∀ a ∈ ([] : List α), P a :=
    fun a hmem => absurd hmem List.not_mem_nil
  apply Machine.endsWell_prefixes_iff (EnteredExactly plan)
  · exact fun done aht h => ⟨h.covers, h.tallies⟩
  · exact fun done aht row h hrow hexact => h.step_of_takesExactly hlength hrow hexact
  · exact fun done aht row h hrow hexact => h.step_of_not_takesExactly hlength hrow hexact
  · exact hrows
  · exact ⟨⟨hnone, hnone, hnone, List.Pairwise.nil, hnone, hnone, hnone⟩, hnone⟩

omit [DoubleText] [DoubleArithmetic]

/-- All aggregates of one BIGINT column by an INTEGER column. -/
def bigIntegerPlan : GroupingPlanNode where
  outputSchema := ⟨[]⟩
  having := none
  childSchema := ⟨[⟨"key", .integer, none⟩, ⟨"n", .bigint, none⟩]⟩
  groupBys := [.columnValue 0 0]
  aggregates := List.replicate 4 (.columnValue 0 1)
  aggTypes := [.countAggregate, .sumAggregate, .minAggregate, .maxAggregate]

/-- The row of a key and a number. -/
def bigIntegerRow (key : Int32) (n : Int64) : Tuple :=
  (Value.integer key).serialize ++ (Value.bigint n).serialize

theorem readable_bigInteger [DoubleText] {row : Tuple} {key : Int32} {values : List Value}
    (hkey : keyOf bigIntegerPlan row = .ok [.integer key])
    (hvalues : valuesOf bigIntegerPlan row = .ok values) : Readable bigIntegerPlan row := by
  apply readable_of_ok hkey hvalues
  exact List.forall_mem_singleton.mpr
    (Value.terminated_of_getTypeId (TypeId.noConfusion : TypeId.integer ≠ .varchar))

/-- The numbers 5 and -7 of the key 1 and the number 3 of the key 2 are taken exactly. -/
theorem tallied_iff_fiveThreeMinusSeven :
    let _ := noDoubleText
    let _ := noDoubleArithmetic
    let rows : List Tuple := [bigIntegerRow 1 5, bigIntegerRow 2 3, bigIntegerRow 1 (-7)]
    (∀ before, before <+: rows →
      (table bigIntegerPlan).EndsWell IsOutOfRange (Tallied IsAggregate bigIntegerPlan) [] before) ∧
      (table bigIntegerPlan).run [] rows = .ok ([(), (), ()],
        [newEntry [.integer 1] [.integer 2, .bigint (-2), .bigint (-7), .bigint 5],
          newEntry [.integer 2] [.integer 1, .bigint 3, .bigint 3, .bigint 3]]) := by
  intro _ _ rows
  have hnumeric : ∀ row key n, keyOf bigIntegerPlan row = .ok [.integer key] →
      valuesOf bigIntegerPlan row = .ok (List.replicate 4 (.bigint n)) →
      (Value.bigint n).isNull = false → NumericRow bigIntegerPlan row := by
    intro row key n hkey hvalues hnull
    refine ⟨⟨readable_bigInteger hkey hvalues, ?_⟩, ?_⟩
    · intro value hmem
      rw [rowValues_eq hvalues] at hmem
      rw [List.eq_of_mem_replicate hmem]
      rfl
    · intro value hmem
      rw [rowValues_eq hvalues] at hmem
      rw [List.eq_of_mem_replicate hmem, hnull]
  refine ⟨(tallied_iff rfl ?_).mpr (by decide), by decide⟩
  rw [List.forall_mem_cons, List.forall_mem_cons, List.forall_mem_singleton]
  exact ⟨hnumeric _ 1 5 (by decide) (by decide) (by decide),
    hnumeric _ 2 3 (by decide) (by decide) (by decide),
    hnumeric _ 1 (-7) (by decide) (by decide) (by decide)⟩

/-- The least one of the BIGINT 3000000000 alone is the INTEGER 2147483647. -/
theorem bigInteger_not_tallied :
    let _ := noDoubleText
    let _ := noDoubleArithmetic
    let rows : List Tuple := [bigIntegerRow 1 3000000000]
    (table bigIntegerPlan).run [] rows = .ok ([()], [newEntry [.integer 1]
      [.integer 1, .bigint 3000000000, .integer 2147483647, .bigint 3000000000]]) ∧
      ¬ (table bigIntegerPlan).EndsWell IsOutOfRange (Tallied IsAggregate bigIntegerPlan) []
        rows := by
  intro _ _ rows
  have hrun : (table bigIntegerPlan).run [] rows = .ok ([()], [newEntry [.integer 1]
      [.integer 1, .bigint 3000000000, .integer 2147483647, .bigint 3000000000]]) := by
    decide
  refine ⟨hrun, ?_⟩
  intro h
  have hentry := (h.final _ ⟨_, hrun⟩).tallies _ List.mem_cons_self
  obtain ⟨value, hvalue, n, hn, hexact⟩ := hentry 2 .minAggregate rfl
  cases hvalue
  cases hn
  have hinputs : groupInputs bigIntegerPlan rows [.integer 1] 2 = [.bigint 3000000000] := by
    decide
  change (2147483647 : Int) ∈ (groupInputs bigIntegerPlan rows [.integer 1] 2).filterMap
    Value.number? ∧ _ at hexact
  rw [hinputs] at hexact
  revert hexact
  decide

end GroupingExecutor

end BusTub
