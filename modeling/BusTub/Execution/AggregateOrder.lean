import BusTub.Execution.AggregateValues

/-! # The order of the rows

What the aggregates come to is a fold over the inputs of a group, which does not depend on
their order. The totals on the way do, and the first one that leaves its range ends the run.
-/

namespace BusTub

open SimpleAggregationHashTable WrapAround

namespace IntegerType

theorem typeId_injective : Function.Injective typeId := by
  intro type type' h
  cases type <;> cases type' <;> first | rfl | cases h

/-- A total that is of the wider type already stays so. -/
theorem wider_wider_self (type type' : IntegerType) :
    (type.wider type').wider type' = type.wider type' := by
  apply eq_of_width_eq
  rw [width_wider, width_wider, max_assoc, max_self]

end IntegerType

namespace Value

variable {left right : Value}

theorem getTypeId_of_isInteger (h : left.IsInteger) :
    left.getTypeId = left.numberType.typeId := getTypeId_of_integerContent h

theorem numberType_eq (hleft : left.IsInteger) (hright : right.IsInteger)
    (htype : left.getTypeId = right.getTypeId) : left.numberType = right.numberType := by
  apply IntegerType.typeId_injective
  rw [← getTypeId_of_isInteger hleft, htype, getTypeId_of_isInteger hright]

/-- A type and a number make one value. -/
theorem eq_of_number_eq (hleft : left.IsInteger) (hright : right.IsInteger)
    (htype : left.numberType = right.numberType) (hnumber : left.number = right.number) :
    left = right := by
  rw [eq_value_of_integerContent hleft, htype, hnumber, ← eq_value_of_integerContent hright]

/-- The same value, or a NULL for a NULL. -/
def SameOrNull (left right : Value) : Prop :=
  left = right ∨ (left.isNull = true ∧ right.isNull = true)

theorem isInteger_of_getTypeId {type : IntegerType} (h : left.getTypeId = type.typeId) :
    left.IsInteger := by
  cases left with
  | boolean content => cases type <;> cases h
  | decimal content => cases type <;> cases h
  | varchar content => cases type <;> cases h
  | _ => rfl

/-- Integers of one type that agree are the same value. -/
theorem Agree.eq_of_isInteger [DoubleText] (h : Agree left right) (hleft : left.IsInteger)
    (hright : right.IsInteger) (htype : left.getTypeId = right.getTypeId) : left = right := by
  have hclass : ∀ value : Value, value.IsInteger → value.isNull = false →
      value.definiteClass = some (.number value.number) := by
    intro value hvalue hsome
    unfold definiteClass
    rw [hsome]
    cases value with
    | boolean content => cases hvalue
    | decimal content => cases hvalue
    | varchar content => cases hvalue
    | _ => rfl
  rcases h with ⟨hnull, hnull'⟩ | heq | hequal
  · exact eq_of_isNull htype hnull hnull'
  · exact heq
  · obtain ⟨c, hc, hc'⟩ := (compareEquals_iff_class htype).mp hequal
    have hsome : ∀ value : Value, value.definiteClass = some c → value.isNull = false := by
      intro value hvalue
      rw [← Bool.not_eq_true]
      intro hnull
      unfold definiteClass at hvalue
      rw [if_pos hnull] at hvalue
      cases hvalue
    rw [hclass left hleft (hsome left hc)] at hc
    rw [hclass right hright (hsome right hc'), ← hc] at hc'
    have hnumber := KeyClass.number.inj (Option.some.inj hc')
    exact eq_of_number_eq hleft hright (numberType_eq hleft hright htype) hnumber.symm

end Value

/-! ## What an aggregate comes to -/

namespace AggregationType

/-- The count, the sum, and the extremes from the bounds of INTEGER on. -/
def fold (aggType : AggregationType) (numbers : List Int) : Int :=
  match aggType with
  | .countAggregate => numbers.length
  | .sumAggregate => numbers.sum
  | .minAggregate => numbers.foldl min (2 ^ 31 - 1)
  | .maxAggregate => numbers.foldl max (-(2 ^ 31 - 1))

/-- The number of an aggregate, none for NULL: only a count goes on after a NULL. -/
def foldOf (aggType : AggregationType) (inputs : List Value) : Option Int :=
  if aggType ≠ .countAggregate ∧ ∃ value ∈ inputs, value.isNull = true then none
  else some (aggType.fold (inputs.map Value.number))

/-- The type of inputs of one type. -/
def typeOfInputs (inputs : List Value) : IntegerType :=
  (inputs.head?.map Value.numberType).getD .integer

/-- The type of an aggregate that is not NULL. An extreme that is still the bound of INTEGER is
an INTEGER; the least one is replaced by an input that is the same number. -/
def typeOf (aggType : AggregationType) (inputs : List Value) : IntegerType :=
  match aggType with
  | .countAggregate => .integer
  | .sumAggregate => IntegerType.integer.wider (typeOfInputs inputs)
  | .minAggregate =>
      if minAggregate.fold (inputs.map Value.number) ∈ inputs.map Value.number then
        typeOfInputs inputs
      else .integer
  | .maxAggregate =>
      if -(2 ^ 31 - 1) < maxAggregate.fold (inputs.map Value.number) then typeOfInputs inputs
      else .integer

variable {aggType : AggregationType} {inputs inputs' : List Value} {value : Value}

theorem typeOfInputs_of_mem (hsame : ∀ other ∈ inputs, other.numberType = value.numberType)
    (hne : inputs ≠ []) : typeOfInputs inputs = value.numberType := by
  obtain ⟨first, rest, rfl⟩ := List.exists_cons_of_ne_nil hne
  exact hsame first List.mem_cons_self

theorem typeOfInputs_append (hsame : ∀ other ∈ inputs, other.numberType = value.numberType) :
    typeOfInputs (inputs ++ [value]) = value.numberType := by
  apply typeOfInputs_of_mem
  · rw [List.forall_mem_append, List.forall_mem_singleton]
    exact ⟨hsame, rfl⟩
  · exact List.append_ne_nil_of_right_ne_nil inputs (List.cons_ne_nil value [])

/-- The order of the numbers does not matter. -/
theorem fold_perm (aggType : AggregationType) {numbers numbers' : List Int}
    (h : numbers.Perm numbers') : aggType.fold numbers = aggType.fold numbers' := by
  cases aggType with
  | countAggregate => exact congrArg Nat.cast h.length_eq
  | sumAggregate => exact h.sum_eq
  | minAggregate => exact h.foldl_op_eq
  | maxAggregate => exact h.foldl_op_eq

theorem foldOf_perm (aggType : AggregationType) (h : inputs.Perm inputs') :
    aggType.foldOf inputs = aggType.foldOf inputs' := by
  have hnull : (∃ value ∈ inputs, value.isNull = true) ↔
      ∃ value ∈ inputs', value.isNull = true := by
    simp only [h.mem_iff]
  unfold foldOf
  rw [fold_perm aggType (h.map Value.number)]
  exact if_congr (and_congr_right fun _ => hnull) rfl rfl

theorem typeOf_perm (aggType : AggregationType) (h : inputs.Perm inputs')
    (hsame : ∀ value ∈ inputs, ∀ other ∈ inputs, value.numberType = other.numberType) :
    aggType.typeOf inputs = aggType.typeOf inputs' := by
  have htype : typeOfInputs inputs = typeOfInputs inputs' := by
    cases inputs with
    | nil => rw [h.nil_eq]
    | cons value inputs =>
        have hne : inputs' ≠ [] := by
          rintro rfl
          cases h.eq_nil
        refine (typeOfInputs_of_mem ?_ hne).symm
        intro other hother
        exact hsame other (h.mem_iff.mpr hother) value List.mem_cons_self
  have hnumbers := h.map Value.number
  cases aggType with
  | countAggregate => rfl
  | sumAggregate => exact congrArg IntegerType.integer.wider htype
  | minAggregate =>
      unfold typeOf
      rw [htype, fold_perm .minAggregate hnumbers]
      exact if_congr hnumbers.mem_iff rfl rfl
  | maxAggregate =>
      unfold typeOf
      rw [htype, fold_perm .maxAggregate hnumbers]

theorem fold_append (numbers : List Int) (n : Int) :
    aggType.fold (numbers ++ [n]) =
      match aggType with
      | .countAggregate => aggType.fold numbers + 1
      | .sumAggregate => aggType.fold numbers + n
      | .minAggregate => min (aggType.fold numbers) n
      | .maxAggregate => max (aggType.fold numbers) n := by
  cases aggType <;> simp [fold]

theorem bound_le_fold (numbers : List Int) : -(2 ^ 31 - 1) ≤ maxAggregate.fold numbers := by
  induction numbers using List.reverseRecOn with
  | nil => exact le_refl _
  | append_singleton numbers n ih =>
      rw [fold_append]
      exact ih.trans (le_max_left _ n)

end AggregationType

/-- The value is what an aggregate comes to. -/
def IsFold (aggType : AggregationType) (inputs : List Value) (value : Value) : Prop :=
  value.number? = aggType.foldOf inputs ∧
    (value.isNull = false → value.numberType = aggType.typeOf inputs)

/-- Aggregates of the same inputs in some order are the same, or NULL. -/
theorem IsFold.sameOrNull {aggType : AggregationType} {inputs inputs' : List Value}
    {left right : Value} (hleft : IsFold aggType inputs left)
    (hright : IsFold aggType inputs' right) (hleftInteger : left.IsInteger)
    (hrightInteger : right.IsInteger) (hperm : inputs.Perm inputs')
    (hsame : ∀ value ∈ inputs, ∀ other ∈ inputs, value.numberType = other.numberType) :
    left.SameOrNull right := by
  have hnumber : left.number? = right.number? := by
    rw [hleft.1, hright.1, AggregationType.foldOf_perm aggType hperm]
  cases hnull : left.isNull with
  | true =>
      rw [Value.number?_of_isInteger hleftInteger, if_pos hnull] at hnumber
      rw [Value.number?_of_isInteger hrightInteger] at hnumber
      refine Or.inr ⟨hnull, ?_⟩
      by_contra hsome
      rw [if_neg hsome] at hnumber
      cases hnumber
  | false =>
      rw [Value.number?_eq_some hleftInteger hnull] at hnumber
      obtain ⟨hsome, heq⟩ := Value.number_eq_of_number? hrightInteger hnumber.symm
      have htype : left.numberType = right.numberType := by
        rw [hleft.2 hnull, hright.2 hsome, AggregationType.typeOf_perm aggType hperm hsame]
      exact Or.inl (Value.eq_of_number_eq hleftInteger hrightInteger htype heq.symm)

namespace Combination

open AggregationType

variable {c : Combination} {aggType : AggregationType} {inputs : List Value}

/-- The values before have been of the type of the value. -/
def OfOneType (inputs : List Value) (value : Value) : Prop :=
  ∀ other ∈ inputs, other.numberType = value.numberType

theorem isFold_initial {old : Value} (h : generateInitialAggregateValue [aggType] = [old]) :
    IsFold aggType [] old := by
  cases aggType <;> cases h <;> exact ⟨by decide, fun _ => by decide⟩

/-- An aggregate that is not NULL is a number, that of inputs that are not NULL. -/
theorem fold_of_isFold (hold : c.old.IsInteger) (hsome : c.old.isNull = false)
    (hfold : IsFold c.aggType inputs c.old) :
    (c.aggType ≠ .countAggregate → ∀ value ∈ inputs, value.isNull = false) ∧
      c.old.number = c.aggType.fold (inputs.map Value.number) ∧
      c.old.numberType = c.aggType.typeOf inputs := by
  obtain ⟨hnumber, htype⟩ := hfold
  rw [Value.number?_eq_some hold hsome] at hnumber
  unfold foldOf at hnumber
  split at hnumber
  next => cases hnumber
  next hnone =>
    refine ⟨?_, Option.some.inj hnumber, htype hsome⟩
    intro hcount value hmem
    rw [← Bool.not_eq_true]
    exact fun hnull => hnone ⟨hcount, value, hmem, hnull⟩

/-- With a NULL the aggregate comes to NULL. -/
theorem foldOf_append_of_null (hold : c.old.IsInteger)
    (hfold : IsFold c.aggType inputs c.old) (hnull : (c.old.isNull || c.input.isNull) = true) :
    c.aggType.foldOf (inputs ++ [c.value]) = none := by
  obtain ⟨aggType, old, value⟩ := c
  have hfoldOf := hfold.1
  unfold foldOf at hfoldOf ⊢
  apply if_pos
  rcases Bool.or_eq_true_iff.mp hnull with hnull | hnull
  · rw [Value.number?_of_isInteger hold, if_pos hnull] at hfoldOf
    split at hfoldOf
    next hsome =>
      obtain ⟨hcount, other, hother, hotherNull⟩ := hsome
      exact ⟨hcount, other, List.mem_append_left _ hother, hotherNull⟩
    next => cases hfoldOf
  · cases aggType with
    | countAggregate => cases hnull
    | _ =>
        exact ⟨fun h => AggregationType.noConfusion h, value,
          List.mem_append_right _ List.mem_cons_self, hnull⟩

/-- Without one it comes to a number. -/
theorem foldOf_append_of_some (hold : c.old.IsInteger)
    (hfold : IsFold c.aggType inputs c.old) (hnull : (c.old.isNull || c.input.isNull) = false) :
    c.aggType.foldOf (inputs ++ [c.value]) =
      some (c.aggType.fold (inputs.map Value.number ++ [c.value.number])) := by
  obtain ⟨hsome, hsome'⟩ := Bool.or_eq_false_iff.mp hnull
  obtain ⟨hinputs, -, -⟩ := fold_of_isFold hold hsome hfold
  unfold foldOf
  rw [List.map_append, List.map_singleton]
  apply if_neg
  rintro ⟨hcount, other, hother, hotherNull⟩
  rcases List.mem_append.mp hother with hother | hother
  · rw [hinputs hcount other hother] at hotherNull
    cases hotherNull
  · obtain ⟨aggType, old, value⟩ := c
    rw [List.mem_singleton.mp hother] at hotherNull
    cases aggType with
    | countAggregate => exact hcount rfl
    | _ =>
        have hvalue : value.isNull = false := hsome'
        rw [hvalue] at hotherNull
        cases hotherNull

/-- A total comes to the sum of what it was and its input, in the wider type of them. -/
theorem foldOf_append_of_total (hold : c.old.IsInteger)
    (hfold : IsFold c.aggType inputs c.old) (hnull : (c.old.isNull || c.input.isNull) = false)
    (hsame : OfOneType inputs c.value) (htotal : c.isTotal = true) :
    c.aggType.foldOf (inputs ++ [c.value]) = some (c.old.number + c.input.number) ∧
      c.aggType.typeOf (inputs ++ [c.value]) = Value.widerType c.old c.input := by
  rw [foldOf_append_of_some hold hfold hnull, fold_append]
  obtain ⟨-, hnumber, htype⟩ := fold_of_isFold hold (Bool.or_eq_false_iff.mp hnull).1 hfold
  obtain ⟨aggType, old, value⟩ := c
  cases aggType with
  | countAggregate =>
      refine ⟨congrArg (fun n => some (n + 1)) hnumber.symm, ?_⟩
      change IntegerType.integer = old.numberType.wider .integer
      rw [htype]
      rfl
  | sumAggregate =>
      refine ⟨congrArg (fun n => some (n + value.number)) hnumber.symm, ?_⟩
      change IntegerType.integer.wider (typeOfInputs (inputs ++ [value])) =
        old.numberType.wider value.numberType
      rw [htype, typeOfInputs_append hsame]
      change _ = (IntegerType.integer.wider (typeOfInputs inputs)).wider value.numberType
      cases inputs with
      | nil => rfl
      | cons first rest =>
          rw [typeOfInputs_of_mem hsame (List.cons_ne_nil first rest),
            IntegerType.wider_wider_self]
  | minAggregate => cases htotal
  | maxAggregate => cases htotal

/-- A total leaves its range just if the number it comes to is not in that of its type. -/
theorem overflows_iff (hold : c.old.IsInteger) (hfold : IsFold c.aggType inputs c.old)
    (hsame : OfOneType inputs c.value) :
    c.Overflows ↔ c.isTotal = true ∧ ∃ n, c.aggType.foldOf (inputs ++ [c.value]) = some n ∧
      ¬ Fits (c.aggType.typeOf (inputs ++ [c.value])).width n := by
  unfold Overflows
  apply and_congr_right
  intro htotal
  cases hnull : (c.old.isNull || c.input.isNull) with
  | true =>
      rw [foldOf_append_of_null hold hfold hnull]
      simp
  | false =>
      obtain ⟨hnumber, htype⟩ := foldOf_append_of_total hold hfold hnull hsame htotal
      rw [hnumber, htype]
      simp

theorem isNull_null (type : IntegerType) : (type.value type.null).isNull = true := by
  cases type <;> decide

/-- A count is not the number of NULL, and a sum is not when that is excluded. -/
theorem total_ne_null (hold : c.old.IsInteger) (hfold : IsFold c.aggType inputs c.old)
    (hnull : (c.old.isNull || c.input.isNull) = false) (hsame : OfOneType inputs c.value)
    (htotal : c.isTotal = true)
    (hsum : c.aggType = .sumAggregate → c.aggType.foldOf (inputs ++ [c.value]) ≠
      some (c.aggType.typeOf (inputs ++ [c.value])).null) :
    c.old.number + c.input.number ≠ (Value.widerType c.old c.input).null := by
  obtain ⟨hnumber, htype⟩ := foldOf_append_of_total hold hfold hnull hsame htotal
  rw [hnumber, htype] at hsum
  obtain ⟨-, hcount, -⟩ := fold_of_isFold hold (Bool.or_eq_false_iff.mp hnull).1 hfold
  obtain ⟨aggType, old, value⟩ := c
  cases aggType with
  | countAggregate =>
      have hneg := null_neg (Value.widerType old (.integer 1))
      have hlength : old.number = ((inputs.map Value.number).length : Int) := hcount
      have hone : (Value.integer 1).number = 1 := rfl
      change old.number + (Value.integer 1).number ≠ (Value.widerType old (.integer 1)).null
      rw [hone, hlength]
      omega
  | sumAggregate => exact fun heq => hsum rfl (congrArg some heq)
  | minAggregate => cases htotal
  | maxAggregate => cases htotal

section Extremes

variable {old value : Value} (hnull : (old.isNull || value.isNull) = false)

include hnull

theorem numberType_next_min
    (hnumber : old.number = minAggregate.fold (inputs.map Value.number))
    (htype : old.numberType = minAggregate.typeOf inputs) (hsame : OfOneType inputs value) :
    (next ⟨.minAggregate, old, value⟩).numberType = minAggregate.typeOf (inputs ++ [value]) := by
  rw [next_min hnull]
  unfold typeOf at htype ⊢
  dsimp only at htype ⊢
  rw [List.map_append, List.map_singleton, fold_append, typeOfInputs_append hsame, ← hnumber]
  rw [← hnumber] at htype
  dsimp only
  split
  next hless =>
    rw [min_eq_left hless.le, htype]
    by_cases hmem : old.number ∈ inputs.map Value.number
    · have hne : inputs ≠ [] := by
        rintro rfl
        cases hmem
      rw [if_pos hmem, if_pos (List.mem_append_left _ hmem), typeOfInputs_of_mem hsame hne]
    · have hnot : old.number ∉ inputs.map Value.number ++ [value.number] := by
        rw [List.mem_append, List.mem_singleton]
        exact not_or.mpr ⟨hmem, hless.ne⟩
      rw [if_neg hmem, if_neg hnot]
  next hnot =>
    rw [min_eq_right (not_lt.mp hnot), if_pos (List.mem_append_right _ List.mem_cons_self)]

theorem numberType_next_max
    (hnumber : old.number = maxAggregate.fold (inputs.map Value.number))
    (htype : old.numberType = maxAggregate.typeOf inputs) (hsame : OfOneType inputs value) :
    (next ⟨.maxAggregate, old, value⟩).numberType = maxAggregate.typeOf (inputs ++ [value]) := by
  rw [next_max hnull]
  unfold typeOf at htype ⊢
  dsimp only at htype ⊢
  rw [List.map_append, List.map_singleton, fold_append, typeOfInputs_append hsame, ← hnumber]
  rw [← hnumber] at htype
  dsimp only
  split
  next hle =>
    rw [max_eq_left hle, htype]
    by_cases hmore : -(2 ^ 31 - 1) < old.number
    · have hne : inputs ≠ [] := by
        rintro rfl
        exact hmore.ne hnumber.symm
      rw [if_pos hmore, if_pos hmore, typeOfInputs_of_mem hsame hne]
    · rw [if_neg hmore, if_neg hmore]
  next hnot =>
    have hbound : -(2 ^ 31 - 1) ≤ old.number := hnumber ▸ bound_le_fold _
    have hless := not_le.mp hnot
    rw [max_eq_right hless.le, if_pos (hbound.trans_lt hless)]

end Extremes

/-- An aggregate comes to the fold of one input more, unless a sum is the number of NULL. -/
theorem isFold_next (hold : c.old.IsInteger) (hvalue : c.value.IsInteger)
    (hfold : IsFold c.aggType inputs c.old) (hsame : OfOneType inputs c.value)
    (hstays : ¬ c.Overflows)
    (hsum : c.aggType = .sumAggregate → c.aggType.foldOf (inputs ++ [c.value]) ≠
      some (c.aggType.typeOf (inputs ++ [c.value])).null) :
    IsFold c.aggType (inputs ++ [c.value]) c.next := by
  cases hnull : (c.old.isNull || c.input.isNull) with
  | true =>
      rw [IsFold, foldOf_append_of_null hold hfold hnull, next_of_null hnull]
      have hnext := isNull_null (Value.widerType c.old c.input)
      constructor
      · rw [Value.number?_of_isInteger, if_pos hnext]
        exact (Value.isInteger_of_integerContent (Value.integerContent_value _ _)).1
      · intro hsome
        rw [hnext] at hsome
        cases hsome
  | false =>
      obtain ⟨hsome, hsome'⟩ := Bool.or_eq_false_iff.mp hnull
      cases htotal : c.isTotal with
      | true =>
          obtain ⟨hnumber, htype⟩ := foldOf_append_of_total hold hfold hnull hsame htotal
          have hfits : Fits (Value.widerType c.old c.input).width
              (c.old.number + c.input.number) := by
            by_contra hfits
            exact hstays ⟨htotal, hnull, hfits⟩
          have hne := total_ne_null hold hfold hnull hsame htotal hsum
          constructor
          · rw [number?_next_of_total htotal hnull hstays, if_neg hne, hnumber]
          · intro _
            rw [htype, next_of_total htotal hnull]
            exact (Value.isInteger_of_integerContent
              (Value.integerContent_value_of_fits hfits)).2.1
      | false =>
          obtain ⟨-, hnumber, htype⟩ := fold_of_isFold hold hsome hfold
          rw [IsFold, foldOf_append_of_some hold hfold hnull, fold_append]
          obtain ⟨aggType, old, value⟩ := c
          cases aggType with
          | countAggregate => cases htotal
          | sumAggregate => cases htotal
          | minAggregate =>
              refine ⟨?_, fun _ => numberType_next_min hnull hnumber htype hsame⟩
              rw [number?_next_min hold hsome hvalue hsome', hnumber]
              exact congrArg some (min_def_lt _ _).symm
          | maxAggregate =>
              refine ⟨?_, fun _ => numberType_next_max hnull hnumber htype hsame⟩
              rw [number?_next_max hold hsome hvalue hsome', hnumber, max_comm]
              exact congrArg some (max_def _ _).symm

end Combination

/-! ## The table after the rows -/

namespace GroupingExecutor

/-- The keys and the aggregates are those of integer columns. -/
structure IntegerPlan (plan : GroupingPlanNode) : Prop where
  length_eq : plan.aggregates.length = plan.aggTypes.length
  keys : ∀ typeId ∈ keyTypes plan, ∃ type : IntegerType, typeId = type.typeId
  aggregates : ∀ expr ∈ plan.aggregates,
    ∃ type : IntegerType, expr.typeIn plan.childSchema = type.typeId

variable [DoubleText]

/-- A row whose key has no NULL. -/
structure KeyedRow (plan : GroupingPlanNode) (row : Tuple) : Prop extends Readable plan row where
  noNull : ∀ value ∈ rowKey plan row, value.isNull = false

/-- The counts and the sums of the groups are in the range of their types. -/
def TotalsFit (plan : GroupingPlanNode) (rows : List Tuple) : Prop :=
  ∀ row ∈ rows, ∀ (i : Nat) (aggType : AggregationType), plan.aggTypes[i]? = some aggType →
    (aggType = .countAggregate ∨ aggType = .sumAggregate) →
      ∀ n, aggType.foldOf (groupInputs plan rows (rowKey plan row) i) = some n →
        Fits (aggType.typeOf (groupInputs plan rows (rowKey plan row) i)).width n

/-- No sum of a group is the number that stands for NULL in its type. -/
def SumsSome (plan : GroupingPlanNode) (rows : List Tuple) : Prop :=
  ∀ row ∈ rows, ∀ i, plan.aggTypes[i]? = some .sumAggregate →
    AggregationType.sumAggregate.foldOf (groupInputs plan rows (rowKey plan row) i) ≠
      some (AggregationType.sumAggregate.typeOf
        (groupInputs plan rows (rowKey plan row) i)).null

/-- The aggregates of the entries are what those of the groups of the rows come to. -/
structure Folded (plan : GroupingPlanNode) (done : List Tuple)
    (aht : List (KeyedEntry (List Value))) : Prop extends Entered plan done aht where
  ofRows : ∀ entry ∈ aht, ∃ row ∈ done, rowKey plan row = entry.key
  tallies : ∀ entry ∈ aht, Tallies IsFold plan done entry

variable {plan : GroupingPlanNode} {done rows rows' : List Tuple} {row : Tuple}
  {key key' : List Value} {aht before after : List (KeyedEntry (List Value))}
  {entry : KeyedEntry (List Value)} {i : Nat} {value : Value} {c : Combination}

/-- The values of the rows for an aggregate are of one type. -/
theorem getTypeId_rowValues (h : Readable plan row)
    (hvalue : (rowValues plan row)[i]? = some value) :
    (plan.aggregates.map (Expression.typeIn plan.childSchema))[i]? = some value.getTypeId := by
  have hread := Except.mapM_eq_ok_iff.mp h.values
  have htypes : plan.aggregates.map (Expression.typeIn plan.childSchema) =
      (rowValues plan row).map Value.getTypeId := by
    rw [← List.forall₂_eq_eq_eq, List.forall₂_map_left_iff, List.forall₂_map_right_iff]
    exact hread.imp fun expr value h => (Expression.getTypeId_of_evaluate h).symm
  rw [htypes, List.getElem?_map, hvalue]
  rfl

theorem IntegerPlan.integerRow (hplan : IntegerPlan plan) (h : Readable plan row) :
    IntegerRow plan row := by
  refine ⟨h, ?_⟩
  intro value hmem
  obtain ⟨i, hi⟩ := List.mem_iff_getElem?.mp hmem
  obtain ⟨expr, hexpr, htype⟩ := List.mem_map.mp (List.mem_of_getElem? (getTypeId_rowValues h hi))
  obtain ⟨type, hinteger⟩ := hplan.aggregates expr hexpr
  exact Value.isInteger_of_getTypeId (htype.symm.trans hinteger)

/-- Keys of integers that agree are the same. -/
theorem KeysAgree.eq_of_integers {types : List TypeId}
    (htypes : ∀ typeId ∈ types, ∃ type : IntegerType, typeId = type.typeId)
    (hkey : KeyOfTypes types key) (hkey' : KeyOfTypes types key') (h : KeysAgree key key') :
    key = key' := by
  induction h generalizing types with
  | nil => rfl
  | @cons value value' key key' hvalue hrest ih =>
      obtain ⟨_, _, rfl, rfl, -, hkey⟩ := KeyOfTypes.cons_iff.mp hkey
      obtain ⟨_, _, hsplit, htype, -, hkey'⟩ := KeyOfTypes.cons_iff.mp hkey'
      cases hsplit
      obtain ⟨⟨type, hinteger⟩, htypes⟩ := List.forall_mem_cons.mp htypes
      rw [ih htypes hkey hkey', hvalue.eq_of_isInteger (Value.isInteger_of_getTypeId hinteger)
        (Value.isInteger_of_getTypeId (htype.trans hinteger)) htype.symm]

theorem mem_groupInputs : value ∈ groupInputs plan rows key i ↔
    ∃ row ∈ rows, sameKeys (rowKey plan row) key = true ∧
      (rowValues plan row)[i]? = some value := by
  unfold groupInputs
  simp only [List.mem_filterMap, List.mem_filter, and_assoc]

theorem IntegerPlan.ofOneType (hplan : IntegerPlan plan) (hrows : ∀ row ∈ rows, Readable plan row)
    (hrow : Readable plan row) (hvalue : (rowValues plan row)[i]? = some value) :
    Combination.OfOneType (groupInputs plan rows key i) value := by
  intro other hother
  obtain ⟨row', hrow', -, hother⟩ := mem_groupInputs.mp hother
  have htypes := (getTypeId_rowValues (hrows row' hrow') hother).symm.trans
    (getTypeId_rowValues hrow hvalue)
  exact Value.numberType_eq
    ((hplan.integerRow (hrows row' hrow')).integers other (List.mem_of_getElem? hother))
    ((hplan.integerRow hrow).integers value (List.mem_of_getElem? hvalue)) (Option.some.inj htypes)

theorem KeyedRow.definite (hplan : IntegerPlan plan) (h : KeyedRow plan row) :
    DefiniteKey (rowKey plan row) := by
  intro value hmem
  have hmap : value.getTypeId ∈ (rowKey plan row).map Value.getTypeId := List.mem_map_of_mem hmem
  rw [(keyOfTypes_rowKey h.toReadable).types_eq] at hmap
  obtain ⟨type, htype⟩ := hplan.keys _ hmap
  have hinteger := Value.isInteger_of_getTypeId htype
  unfold Value.isDefinite
  rw [h.noNull value hmem]
  cases value with
  | decimal content => cases hinteger
  | _ => rfl

/-- Keys of integers that the table takes for one are one. -/
theorem IntegerPlan.eq_of_sameKeys (hplan : IntegerPlan plan)
    (hkey : KeyOfTypes (keyTypes plan) key) (hkey' : KeyOfTypes (keyTypes plan) key')
    (h : sameKeys key key' = true) : key = key' :=
  KeysAgree.eq_of_integers hplan.keys hkey hkey' ((sameKeys_iff hkey hkey').mp h).2.2

theorem groupInputs_row (hself : sameKeys (rowKey plan row) (rowKey plan row) = true)
    (hvalue : (rowValues plan row)[i]? = some value) :
    groupInputs plan (done ++ [row]) (rowKey plan row) i =
      groupInputs plan done (rowKey plan row) i ++ [value] := by
  rw [groupInputs_append, if_pos hself, hvalue]
  rfl

/-- The aggregates that a row finds are what those of its group have come to. -/
theorem Folded.isFold_current (h : Folded plan done aht) (hplan : IntegerPlan plan)
    (hrow : Readable plan row) (hc : (rowCombinations plan aht row)[i]? = some c) :
    IsFold c.aggType (groupInputs plan done (rowKey plan row) i) c.old := by
  have hkey := keyOfTypes_rowKey hrow
  obtain ⟨htype, hold, hvalue⟩ := getElem?_rowCombinations hc
  rcases KeyedEntry.found_or_none (rowKey plan row) aht with
    ⟨before, entry, after, rfl, hbefore, hsame⟩ | hnone
  · have hmem : entry ∈ before ++ entry :: after := List.mem_append_right before List.mem_cons_self
    have heq := hplan.eq_of_sameKeys hkey (h.keyed entry hmem).2 hsame
    obtain ⟨old, hentry, hfold⟩ := h.tallies entry hmem i c.aggType htype
    rw [current_of_found hbefore hsame, hentry] at hold
    rw [heq, ← Option.some.inj hold]
    exact hfold
  · rw [h.groupInputs_nil hkey hnone]
    apply Combination.isFold_initial
    rw [current_of_none hnone, generateInitialAggregateValue, List.getElem?_map, htype] at hold
    exact congrArg (fun value => [value]) (Option.some.inj hold)

/-- The totals of rows that have been taken fit. -/
theorem Folded.totalsFit (h : Folded plan done aht) (hplan : IntegerPlan plan) :
    TotalsFit plan done := by
  intro row hrow i aggType htype htotal n hn
  obtain ⟨entry, hentry, hsame⟩ := h.covers row hrow
  have hkey := keyOfTypes_rowKey (h.readable row hrow)
  rw [hplan.eq_of_sameKeys hkey (h.keyed entry hentry).2 hsame] at hn ⊢
  obtain ⟨value, hvalue, hnumber, hvalueType⟩ := h.tallies entry hentry i aggType htype
  have hinteger := h.integers entry hentry value (List.mem_of_getElem? hvalue)
  rw [hn] at hnumber
  obtain ⟨hsome, rfl⟩ := Value.number_eq_of_number? hinteger hnumber
  rw [← hvalueType hsome]
  exact Value.fits_of_integerContent hinteger

/-- A row with a total that leaves its range. -/
theorem Folded.not_totalsFit (h : Folded plan done aht) (hplan : IntegerPlan plan)
    (hrow : KeyedRow plan row) (hover : ∃ c ∈ rowCombinations plan aht row, c.Overflows) :
    ¬ TotalsFit plan (done ++ [row]) := by
  obtain ⟨c, hmem, hover⟩ := hover
  obtain ⟨i, hc⟩ := List.mem_iff_getElem?.mp hmem
  obtain ⟨htype, hold, hvalue⟩ := getElem?_rowCombinations hc
  obtain ⟨holdInteger, -⟩ := h.integerCombinations (hplan.integerRow hrow.toReadable) c hmem
  have hself := (sameKeys_self_iff (keyOfTypes_rowKey hrow.toReadable)).mpr (hrow.definite hplan)
  rw [Combination.overflows_iff holdInteger (h.isFold_current hplan hrow.toReadable hc)
    (hplan.ofOneType h.readable hrow.toReadable hvalue)] at hover
  obtain ⟨htotal, n, hn, hout⟩ := hover
  intro hfit
  apply hout
  rw [← groupInputs_row hself hvalue] at hn ⊢
  refine hfit row (List.mem_append_right done List.mem_cons_self) i c.aggType htype ?_ n hn
  cases haggType : c.aggType with
  | countAggregate => exact Or.inl rfl
  | sumAggregate => exact Or.inr rfl
  | minAggregate =>
      rw [Combination.isTotal, haggType] at htotal
      cases htotal
  | maxAggregate =>
      rw [Combination.isTotal, haggType] at htotal
      cases htotal

/-- The aggregates of the group of a row come to the fold of one input more. -/
theorem Folded.tallies_row (h : Folded plan done aht) (hplan : IntegerPlan plan)
    (hrow : KeyedRow plan row) (hstays : ¬ ∃ c ∈ rowCombinations plan aht row, c.Overflows)
    (hsums : SumsSome plan (done ++ [row])) (hkey : entry.key = rowKey plan row)
    (hvalue : entry.value = (rowCombinations plan aht row).map Combination.next) :
    Tallies IsFold plan (done ++ [row]) entry := by
  have hself := (sameKeys_self_iff (keyOfTypes_rowKey hrow.toReadable)).mpr (hrow.definite hplan)
  rw [tallies_next_iff hplan.length_eq hrow.toReadable (h.integerCurrent _).1
    (hkey ▸ hself) hvalue, hkey]
  intro i c hc
  have hmem := List.mem_of_getElem? hc
  obtain ⟨htype, -, hinput⟩ := getElem?_rowCombinations hc
  obtain ⟨holdInteger, hinteger⟩ := h.integerCombinations (hplan.integerRow hrow.toReadable) c hmem
  apply Combination.isFold_next holdInteger hinteger (h.isFold_current hplan hrow.toReadable hc)
    (hplan.ofOneType h.readable hrow.toReadable hinput) (fun hover => hstays ⟨c, hmem, hover⟩)
  intro hsum
  rw [hsum] at htype ⊢
  rw [← groupInputs_row hself hinput]
  exact hsums row (List.mem_append_right done List.mem_cons_self) i htype

section Runs

variable [DoubleArithmetic]

/-- What a row with a key does to the table: it ends the run out of range, with a total that does
not fit, or the aggregates of its group come to one input more. -/
theorem Folded.stepEnds (h : Folded plan done aht) (hplan : IntegerPlan plan)
    (hrow : KeyedRow plan row)
    (hsums : ∀ next, (table plan).step aht row = .ok ((), next) → SumsSome plan (done ++ [row])) :
    (table plan).StepEnds (fun fault => fault = .eval .outOfRange ∧
      ¬ TotalsFit plan (done ++ [row])) (Folded plan (done ++ [row])) aht row := by
  have hinteger := hplan.integerRow hrow.toReadable
  have hdefinite := hrow.definite hplan
  have hkey := keyOfTypes_rowKey hrow.toReadable
  have hstep := h.stepOf hplan.length_eq hinteger hdefinite
  obtain ⟨hlengths, hintegers⟩ := h.next hplan.length_eq hinteger
  unfold Machine.StepEnds
  generalize (table plan).step aht row = outcome at hstep hsums
  cases hstep with
  | overflow hover => exact ⟨rfl, h.not_totalsFit hplan hrow hover⟩
  | @found before after entry hstays hsplit hbefore hsame =>
      have hsome := hsums _ rfl
      subst hsplit
      have hmem : entry ∈ before ++ entry :: after :=
        List.mem_append_right before List.mem_cons_self
      have hsameKey := hplan.eq_of_sameKeys hkey (h.keyed entry hmem).2 hsame
      have htallies := h.tallies
      have hofRows := h.ofRows
      rw [List.forall_mem_append, List.forall_mem_cons] at htallies hofRows
      obtain ⟨hfirst, -, hlast⟩ := htallies
      have hgrow : ∀ other, (∃ row' ∈ done, rowKey plan row' = other) →
          ∃ row' ∈ done ++ [row], rowKey plan row' = other := by
        rintro other ⟨row', hrow', heq⟩
        exact ⟨row', List.mem_append_left _ hrow', heq⟩
      refine ⟨h.found hrow.toReadable hsame hlengths hintegers, ?_, ?_⟩
      · rw [List.forall_mem_append, List.forall_mem_cons]
        exact ⟨fun other hother => hgrow other.key (hofRows.1 other hother),
          hgrow entry.key hofRows.2.1,
          fun other hother => hgrow other.key (hofRows.2.2 other hother)⟩
      · rw [List.forall_mem_append, List.forall_mem_cons]
        refine ⟨fun other hother => (hfirst other hother).other (hbefore other hother), ?_, ?_⟩
        · exact h.tallies_row hplan hrow hstays hsome hsameKey.symm rfl
        · intro other hother
          exact (hlast other hother).other (h.others hkey hsame other hother)
  | new hstays hnone =>
      have hsome := hsums _ rfl
      refine ⟨h.new hrow.toReadable hdefinite hnone hlengths hintegers, ?_, ?_⟩
      · rw [List.forall_mem_append, List.forall_mem_singleton]
        constructor
        · intro other hother
          obtain ⟨row', hrow', heq⟩ := h.ofRows other hother
          exact ⟨row', List.mem_append_left _ hrow', heq⟩
        · exact ⟨row, List.mem_append_right done List.mem_cons_self, rfl⟩
      · rw [List.forall_mem_append, List.forall_mem_singleton]
        refine ⟨fun other hother => (h.tallies other hother).other (hnone other hother), ?_⟩
        exact h.tallies_row hplan hrow hstays hsome rfl rfl

/-- No sum that the run comes to is the number that stands for NULL in its type. -/
def NoNullSums (plan : GroupingPlanNode) (rows : List Tuple) : Prop :=
  ∀ before aht, before <+: rows → (table plan).Reaches [] before aht → SumsSome plan before

/-- A run comes to the aggregates of the groups, or ends out of range after the first rows of
which a total does not fit. -/
theorem reaches_or_error (hplan : IntegerPlan plan) (hrows : ∀ row ∈ rows, KeyedRow plan row)
    (hsums : NoNullSums plan rows) :
    (∃ aht, (table plan).Reaches [] rows aht ∧ Folded plan rows aht ∧
      ∀ before, before <+: rows → TotalsFit plan before) ∨
    ((table plan).run [] rows = .error (.eval .outOfRange) ∧
      ∃ before, before <+: rows ∧ ¬ TotalsFit plan before) := by
  induction rows using List.reverseRecOn with
  | nil =>
      have hnone : ∀ {α : Type} {P : α → Prop}, ∀ a ∈ ([] : List α), P a :=
        fun a hmem => absurd hmem List.not_mem_nil
      have hfolded : Folded plan [] [] :=
        ⟨⟨hnone, hnone, hnone, List.Pairwise.nil, hnone, hnone, hnone⟩, hnone, hnone⟩
      refine Or.inl ⟨[], Machine.reaches_nil.mpr rfl, hfolded, ?_⟩
      intro before hbefore
      rw [List.prefix_nil.mp hbefore]
      exact hfolded.totalsFit hplan
  | append_singleton rows row ih =>
      rw [List.forall_mem_append, List.forall_mem_singleton] at hrows
      have hfirst : NoNullSums plan rows := fun before aht hbefore hreach =>
        hsums before aht (hbefore.trans (List.prefix_append rows [row])) hreach
      rcases ih hrows.1 hfirst with ⟨aht, hreach, hfolded, hfit⟩ | ⟨hrun, before, hbefore, hout⟩
      · -- the row that is next, after the rows that did not throw
        have hone : ∀ next, (table plan).step aht row = .ok ((), next) →
            (table plan).Reaches [] (rows ++ [row]) next := by
          intro next hstep
          refine Machine.reaches_append.mpr ⟨aht, hreach, ?_⟩
          exact Machine.reaches_cons.mpr ⟨(), next, hstep, Machine.reaches_nil.mpr rfl⟩
        have hends := hfolded.stepEnds hplan hrows.2 fun next hstep =>
          hsums _ next (List.prefix_refl _) (hone next hstep)
        cases hstep : (table plan).step aht row with
        | error fault =>
            -- the first row whose totals do not fit is the one that throws
            obtain ⟨rfl, hout⟩ := hends.of_error hstep
            refine Or.inr ⟨Machine.run_append_error hreach ?_, _, List.prefix_refl _, hout⟩
            simp only [Machine.run, hstep]
        | ok result =>
            have hnext := hends.of_ok hstep
            refine Or.inl ⟨result.2, hone result.2 hstep, hnext, ?_⟩
            intro before hbefore
            rcases List.prefix_concat_iff.mp hbefore with rfl | hbefore
            · exact hnext.totalsFit hplan
            · exact hfit before hbefore
      · exact Or.inr ⟨Machine.run_append_of_error hrun [row], before,
          hbefore.trans (List.prefix_append rows [row]), hout⟩

end Runs

/-! ## Permuted rows -/

theorem groupInputs_perm (hperm : rows.Perm rows') (key : List Value) (i : Nat) :
    (groupInputs plan rows key i).Perm (groupInputs plan rows' key i) :=
  (hperm.filter _).filterMap _

theorem Entered.uniform (h : Entered plan rows aht) (hplan : IntegerPlan plan) (key : List Value)
    (i : Nat) : ∀ value ∈ groupInputs plan rows key i, ∀ other ∈ groupInputs plan rows key i,
      value.numberType = other.numberType := by
  intro value hvalue other hother
  obtain ⟨row, hrow, -, hread⟩ := mem_groupInputs.mp hother
  exact hplan.ofOneType h.readable (h.readable row hrow) hread value hvalue

/-- The same rows of groups and aggregates, a NULL for a NULL. -/
def SameRows (aht aht' : List (KeyedEntry (List Value))) : Prop :=
  ∀ entry ∈ aht, ∃ entry' ∈ aht', entry'.key = entry.key ∧
    List.Forall₂ Value.SameOrNull entry.value entry'.value

theorem Folded.sameRows {aht' : List (KeyedEntry (List Value))} (h : Folded plan rows aht)
    (h' : Folded plan rows' aht') (hplan : IntegerPlan plan) (hperm : rows.Perm rows') :
    SameRows aht aht' := by
  intro entry hentry
  obtain ⟨row, hrow, hkey⟩ := h.ofRows entry hentry
  obtain ⟨entry', hentry', hsame⟩ := h'.covers row (hperm.mem_iff.mp hrow)
  have hkeys := hplan.eq_of_sameKeys (keyOfTypes_rowKey (h.readable row hrow))
    (h'.keyed entry' hentry').2 hsame
  rw [hkey] at hkeys
  refine ⟨entry', hentry', hkeys.symm, ?_⟩
  have hlength := h.lengths entry hentry
  refine List.forall₂_iff_get.mpr ⟨hlength.trans (h'.lengths entry' hentry').symm, ?_⟩
  intro i hi hi'
  have htype := List.getElem?_eq_getElem (hlength ▸ hi)
  obtain ⟨value, hvalue, hfold⟩ := h.tallies entry hentry i _ htype
  obtain ⟨value', hvalue', hfold'⟩ := h'.tallies entry' hentry' i _ htype
  rw [← hkeys] at hfold'
  rw [List.getElem?_eq_getElem hi] at hvalue
  rw [List.getElem?_eq_getElem hi'] at hvalue'
  cases hvalue
  cases hvalue'
  exact hfold.sameOrNull hfold' (h.integers entry hentry _ (List.getElem_mem hi))
    (h'.integers entry' hentry' _ (List.getElem_mem hi')) (groupInputs_perm hperm _ _)
    (h.uniform hplan _ _)

theorem TotalsFit.perm (hplan : IntegerPlan plan) (hrows : ∀ row ∈ rows, Readable plan row)
    (hperm : rows.Perm rows') (h : TotalsFit plan rows') : TotalsFit plan rows := by
  intro row hrow i aggType htype htotal n hn
  have hinputs : (groupInputs plan rows (rowKey plan row) i).Perm _ := groupInputs_perm hperm _ _
  rw [AggregationType.foldOf_perm aggType hinputs] at hn
  rw [AggregationType.typeOf_perm aggType hinputs]
  · exact h row (hperm.mem_iff.mp hrow) i aggType htype htotal n hn
  · intro value hvalue other hother
    obtain ⟨row', hrow', -, hread⟩ := mem_groupInputs.mp hother
    exact hplan.ofOneType hrows (hrows row' hrow') hread value hvalue

section Runs

variable [DoubleArithmetic]

/-- The run throws OUT_OF_RANGE. -/
def Throws (plan : GroupingPlanNode) (rows : List Tuple) : Prop :=
  (table plan).run [] rows = .error (.eval .outOfRange)

/-- Rows and a permutation of them, over integer columns and with keys without NULL, come to the
same groups and aggregates when neither run throws. A run throws just if a count or a sum of
the rows up to some row leaves its range, and both do when one of all rows does. -/
theorem permuted_rows (hplan : IntegerPlan plan) (hrows : ∀ row ∈ rows, KeyedRow plan row)
    (hperm : rows.Perm rows') (hsums : NoNullSums plan rows) (hsums' : NoNullSums plan rows') :
    (¬ Throws plan rows → ¬ Throws plan rows' →
      ∃ aht aht', (table plan).Reaches [] rows aht ∧ (table plan).Reaches [] rows' aht' ∧
        SameRows aht aht' ∧ SameRows aht' aht) ∧
    (Throws plan rows ↔ ∃ before, before <+: rows ∧ ¬ TotalsFit plan before) ∧
    (¬ TotalsFit plan rows → Throws plan rows ∧ Throws plan rows') := by
  have hrows' : ∀ row ∈ rows', KeyedRow plan row :=
    fun row hrow => hrows row (hperm.mem_iff.mpr hrow)
  have hfirst := reaches_or_error hplan hrows hsums
  have hsecond := reaches_or_error hplan hrows' hsums'
  -- a run that reaches a table has not thrown
  have hfits : ∀ {rows aht}, (table plan).Reaches [] rows aht → ¬ Throws plan rows := by
    rintro rows aht ⟨outputs, hok⟩ hthrows
    rw [Throws, hok] at hthrows
    cases hthrows
  refine ⟨?_, ?_, ?_⟩
  · intro hok hok'
    rcases hfirst with ⟨aht, hreach, hfolded, -⟩ | ⟨hrun, -⟩
    · rcases hsecond with ⟨aht', hreach', hfolded', -⟩ | ⟨hrun', -⟩
      · exact ⟨aht, aht', hreach, hreach', hfolded.sameRows hfolded' hplan hperm,
          hfolded'.sameRows hfolded hplan hperm.symm⟩
      · exact absurd hrun' hok'
    · exact absurd hrun hok
  · rcases hfirst with ⟨aht, hreach, -, hall⟩ | ⟨hrun, hout⟩
    · refine iff_of_false (hfits hreach) ?_
      rintro ⟨before, hbefore, hnot⟩
      exact hnot (hall before hbefore)
    · exact iff_of_true hrun hout
  · intro hnot
    constructor
    · rcases hfirst with ⟨aht, -, -, hall⟩ | ⟨hrun, -⟩
      · -- the totals of all the rows are the same in either order
        exact absurd (hall rows (List.prefix_refl rows)) hnot
      · exact hrun
    · rcases hsecond with ⟨aht', -, -, hall⟩ | ⟨hrun, -⟩
      · refine absurd ((hall rows' (List.prefix_refl rows')).perm hplan ?_ hperm) hnot
        exact fun row hrow => (hrows row hrow).toReadable
      · exact hrun

end Runs

omit [DoubleText]

/-- Two rows of a group and one of another one, in two orders. -/
theorem permuted_rows_fiveThreeMinusSeven :
    let _ := noDoubleText
    let _ := noDoubleArithmetic
    let rows : List Tuple := [bigIntegerRow 1 5, bigIntegerRow 2 3, bigIntegerRow 1 (-7)]
    let rows' : List Tuple := [bigIntegerRow 1 (-7), bigIntegerRow 1 5, bigIntegerRow 2 3]
    ¬ Throws bigIntegerPlan rows ∧ ¬ Throws bigIntegerPlan rows' ∧
      ∃ aht aht', (table bigIntegerPlan).Reaches [] rows aht ∧
        (table bigIntegerPlan).Reaches [] rows' aht' ∧ SameRows aht aht' ∧ SameRows aht' aht := by
  intro _ _ rows rows'
  have hplan : IntegerPlan bigIntegerPlan := by
    refine ⟨rfl, ?_, ?_⟩
    · intro typeId hmem
      rw [List.mem_singleton.mp (show typeId ∈ [TypeId.integer] from hmem)]
      exact ⟨.integer, rfl⟩
    · intro expr hmem
      rw [List.eq_of_mem_replicate hmem]
      exact ⟨.bigint, rfl⟩
  have hkeyed : ∀ row key n, keyOf bigIntegerPlan row = .ok [.integer key] →
      valuesOf bigIntegerPlan row = .ok (List.replicate 4 (.bigint n)) →
      (Value.integer key).isNull = false → KeyedRow bigIntegerPlan row := by
    intro row key n hkey hvalues hnull
    refine ⟨readable_bigInteger hkey hvalues, ?_⟩
    rw [rowKey_eq hkey]
    exact List.forall_mem_singleton.mpr hnull
  have hrows : ∀ row ∈ rows, KeyedRow bigIntegerPlan row := by
    rw [List.forall_mem_cons, List.forall_mem_cons, List.forall_mem_singleton]
    exact ⟨hkeyed _ 1 5 (by decide) (by decide) (by decide),
      hkeyed _ 2 3 (by decide) (by decide) (by decide),
      hkeyed _ 1 (-7) (by decide) (by decide) (by decide)⟩
  have hsums : ∀ rows, (∀ before ∈ rows.inits, ∀ row ∈ before,
      AggregationType.sumAggregate.foldOf (groupInputs bigIntegerPlan before
        (rowKey bigIntegerPlan row) 1) ≠
      some (AggregationType.sumAggregate.typeOf (groupInputs bigIntegerPlan before
        (rowKey bigIntegerPlan row) 1)).null) → NoNullSums bigIntegerPlan rows := by
    intro rows hall before aht hbefore _ row hrow i hi
    rcases i with _ | _ | _ | _ | i
    · cases hi
    · exact hall before ((List.mem_inits before rows).mpr hbefore) row hrow
    · cases hi
    · cases hi
    · cases hi
  have hthrows : ¬ Throws bigIntegerPlan rows := by
    unfold Throws
    decide
  have hthrows' : ¬ Throws bigIntegerPlan rows' := by
    unfold Throws
    decide
  have hperm : rows.Perm rows' := by decide
  refine ⟨hthrows, hthrows', ?_⟩
  exact (permuted_rows hplan hrows hperm (hsums rows (by decide)) (hsums rows' (by decide))).1
    hthrows hthrows'

/-- A sum of INTEGERs leaves its range in one order and not in another one. -/
theorem permuted_not_throws :
    let _ := noDoubleText
    let _ := noDoubleArithmetic
    let rows : List Tuple := [2147483647, 1, -1].map fun n => (Value.integer n).serialize
    let rows' : List Tuple := [1, -1, 2147483647].map fun n => (Value.integer n).serialize
    let plan : GroupingPlanNode := { countPlan with
      groupBys := [], aggTypes := [.sumAggregate] }
    rows.Perm rows' ∧ Throws plan rows ∧
      (table plan).run [] rows' =
        .ok ([(), (), ()], [newEntry [.integer 0] [.integer 2147483647]]) := by
  intro _ _ rows rows' plan
  refine ⟨by decide, ?_, by decide⟩
  unfold Throws
  decide

end GroupingExecutor

end BusTub
