import BusTub.Execution.ExecutorPasses
import BusTub.Execution.GroupKeys
import BusTub.Library.Machine
import BusTub.Types.Extremes

/-! # The table of an aggregation

The constructor puts the rows of the child into the table one after the other: a machine
whose inputs are the rows. A row changes the aggregates of the first entry for its key;
when there is none, it gets an entry, and a second one if its key is not equal to itself.
-/

namespace BusTub

open Cursor

/-- The addition of `Value`. -/
instance [DoubleText] [DoubleArithmetic] : ValueArithmetic := ⟨Value.add⟩

/-- The extremes of `Value`. -/
instance [DoubleText] : ValueExtremes := ⟨Value.min, Value.max⟩

namespace Expression

/-- The type of what an expression evaluates to. -/
def typeIn (schema : Schema) : Expression → TypeId
  | .columnValue _ colIdx => ((schema.columns[colIdx]?).map Column.columnType).getD .boolean
  | .constantValue val => val.getTypeId
  | .comparison _ _ _ => .boolean
  | .aggregateValue _ _ => .boolean

theorem getTypeId_of_evaluate [DoubleText] {tuple : Tuple} {schema : Schema} {expr : Expression}
    {value : Value} (h : expr.evaluate tuple schema = .ok value) :
    value.getTypeId = expr.typeIn schema := by
  cases expr with
  | columnValue tupleIdx colIdx =>
      have hread : tuple.getValue schema colIdx = .ok value := h
      rw [typeIn, Tuple.getTypeId_of_getValue hread]
      rfl
  | constantValue val =>
      cases h
      rfl
  | comparison left right compType =>
      obtain ⟨lhs, -, hright⟩ := Except.bind_eq_ok_iff.mp h
      obtain ⟨rhs, -, hcompare⟩ := Except.bind_eq_ok_iff.mp hright
      obtain ⟨result, -, hvalue⟩ := Except.bind_eq_ok_iff.mp hcompare
      cases hvalue
      cases result <;> rfl
  | aggregateValue isGroupByTerm termIdx => cases h

end Expression

namespace GroupingExecutor

section Rows

variable [DoubleText]

/-- The key of a row: `MakeAggregateKey`, or the initial values when there is no GROUP BY. -/
def keyOf (plan : GroupingPlanNode) (row : Tuple) : Except EvalFault (List Value) :=
  if plan.groupBys.isEmpty then
    .ok (SimpleAggregationHashTable.generateInitialAggregateValue plan.aggTypes)
  else plan.groupBys.mapM (Expression.evaluate row plan.childSchema)

/-- `MakeAggregateValue`. -/
def valuesOf (plan : GroupingPlanNode) (row : Tuple) : Except EvalFault (List Value) :=
  plan.aggregates.mapM (Expression.evaluate row plan.childSchema)

/-- The key of a row that has one. -/
def rowKey (plan : GroupingPlanNode) (row : Tuple) : List Value :=
  (keyOf plan row).toOption.getD []

/-- The values of a row that has them. -/
def rowValues (plan : GroupingPlanNode) (row : Tuple) : List Value :=
  (valuesOf plan row).toOption.getD []

theorem rowKey_eq {plan : GroupingPlanNode} {row : Tuple} {key : List Value}
    (h : keyOf plan row = .ok key) : rowKey plan row = key := by
  unfold rowKey
  rw [h]
  rfl

theorem rowValues_eq {plan : GroupingPlanNode} {row : Tuple} {values : List Value}
    (h : valuesOf plan row = .ok values) : rowValues plan row = values := by
  unfold rowValues
  rw [h]
  rfl

/-- The expressions of the plan can be evaluated, and a VARCHAR of the key has a length that
`CompareStrings` takes. -/
structure Readable (plan : GroupingPlanNode) (row : Tuple) : Prop where
  key : keyOf plan row = .ok (rowKey plan row)
  values : valuesOf plan row = .ok (rowValues plan row)
  terminated : ∀ value ∈ rowKey plan row, value.Terminated

omit [DoubleText] in
/-- The types of the values of the keys. -/
def keyTypes (plan : GroupingPlanNode) : List TypeId :=
  if plan.groupBys.isEmpty then plan.aggTypes.map fun _ => .integer
  else plan.groupBys.map (Expression.typeIn plan.childSchema)

variable {plan : GroupingPlanNode} {row : Tuple}

theorem readable_of_ok {key values : List Value} (hkey : keyOf plan row = .ok key)
    (hvalues : valuesOf plan row = .ok values) (hterminated : ∀ value ∈ key, value.Terminated) :
    Readable plan row :=
  ⟨by rw [rowKey_eq hkey, hkey], by rw [rowValues_eq hvalues, hvalues],
    by rwa [rowKey_eq hkey]⟩

theorem keyOfTypes_rowKey (h : Readable plan row) :
    KeyOfTypes (keyTypes plan) (rowKey plan row) := by
  refine ⟨?_, h.terminated⟩
  have hkey := h.key
  unfold keyOf at hkey
  unfold keyTypes
  split at hkey
  next hempty =>
    rw [if_pos hempty, ← Except.ok.inj hkey,
      SimpleAggregationHashTable.generateInitialAggregateValue, List.map_map]
    apply List.map_congr_left
    intro aggType _
    cases aggType <;> rfl
  next hgroups =>
    rw [if_neg hgroups]
    have hread := Except.mapM_eq_ok_iff.mp hkey
    rw [← List.forall₂_eq_eq_eq, List.forall₂_map_left_iff, List.forall₂_map_right_iff]
    exact List.Forall₂.flip
      (hread.imp fun expr value h => Expression.getTypeId_of_evaluate h)

theorem length_rowValues (h : Readable plan row) :
    (rowValues plan row).length = plan.aggregates.length :=
  (Except.mapM_eq_ok_iff.mp h.values).length_eq.symm

end Rows

section Table

variable [DoubleText] [DoubleArithmetic] {plan : GroupingPlanNode}
  {aht final : List (KeyedEntry (List Value))} {row : Tuple} {rows : List Tuple}

/-- The loop of the constructor as a machine. -/
def table (plan : GroupingPlanNode) :
    Machine (List (KeyedEntry (List Value))) Tuple Unit PlanFault where
  step aht row := (addRow plan aht row).map fun aht => ((), aht)

/-- A row that is readable goes to the table with its key and its values. -/
theorem addRow_eq (h : Readable plan row) :
    addRow plan aht row =
      match SimpleAggregationHashTable.insertCombine plan.aggTypes (rowKey plan row)
        (rowValues plan row) aht with
      | .error fault => .error (.eval fault)
      | .ok aht => .ok aht := by
  have hkey := h.key
  have hvalues := h.values
  unfold keyOf at hkey
  unfold valuesOf at hvalues
  cases hempty : plan.groupBys.isEmpty with
  | true =>
      rw [if_pos hempty] at hkey
      simp only [addRow, hempty, if_true, Except.ok.inj hkey, hvalues]
      rfl
  | false =>
      rw [hempty, if_neg Bool.false_ne_true] at hkey
      simp only [addRow, hempty, hkey, hvalues]
      rfl

theorem table_step (h : Readable plan row) :
    (table plan).step aht row =
      match SimpleAggregationHashTable.insertCombine plan.aggTypes (rowKey plan row)
        (rowValues plan row) aht with
      | .error fault => .error (.eval fault)
      | .ok aht => .ok ((), aht) := by
  change (addRow plan aht row).map _ = _
  rw [addRow_eq h]
  cases SimpleAggregationHashTable.insertCombine plan.aggTypes (rowKey plan row)
    (rowValues plan row) aht <;> rfl

theorem table_run (aht : List (KeyedEntry (List Value))) (rows : List Tuple) :
    (table plan).run aht rows =
      (consumed (addRow plan) aht rows none).map fun final => (rows.map fun _ => (), final) := by
  induction rows generalizing aht with
  | nil => rfl
  | cons row rest ih =>
      have hstep : (table plan).step aht row =
          (addRow plan aht row).map fun aht => ((), aht) := rfl
      rw [consumed_cons, Machine.run, hstep]
      cases addRow plan aht row with
      | error fault => rfl
      | ok next =>
          dsimp only [Except.map]
          rw [ih next]
          cases consumed (addRow plan) next rest none <;> rfl

/-- The machine is the loop of the constructor: over the rows of a child, that has the table
which the machine comes to. -/
theorem new_eq {order : IterationOrder} {child : AbstractExecutor} {fuel : Nat}
    (h : child.Restarts (.read rows none)) (hfuel : rows.length < fuel) :
    ∃ filledChild, new plan order child fuel =
      match (table plan).run [] rows with
      | .error fault => .error fault
      | .ok (_, aht) =>
          .ok (overTable plan.toAggregationPlanNode (groups order aht) child filledChild) := by
  rw [table_run]
  rcases new_of_reads plan order h hfuel with
    ⟨fault, hconsumed, hcreated⟩ | ⟨aht, filledChild, hconsumed, -, hcreated⟩
  · exact ⟨child.start, by rw [hcreated, hconsumed]; rfl⟩
  · exact ⟨filledChild, by rw [hcreated, hconsumed]; rfl⟩

end Table

end GroupingExecutor

/-! ## What a row changes -/

namespace SimpleAggregationHashTable

variable [DoubleText] [DoubleArithmetic] {aggTypes : List AggregationType}

/-- One aggregate with one more input. -/
def combineOne (aggType : AggregationType) (old value : Value) : Except EvalFault Value :=
  match aggType with
  | .countAggregate => old.add (.integer 1)
  | .sumAggregate => old.add value
  | .minAggregate => old.min value
  | .maxAggregate => old.max value

theorem combineAt_eq {aggType : AggregationType} {old value : Value} {input result : List Value}
    {i : Nat} (htype : aggTypes[i]? = some aggType) (hold : result[i]? = some old)
    (hvalue : input[i]? = some value) :
    combineAt aggTypes input result i =
      (combineOne aggType old value).map fun combined => result.set i combined := by
  unfold combineAt
  rw [htype, hold, hvalue]
  cases aggType <;> exact bind_pure_comp _ _

theorem combineAt_succ (aggType : AggregationType) (value first : Value)
    (input result : List Value) (i : Nat) :
    combineAt (aggType :: aggTypes) (value :: input) (first :: result) (i + 1) =
      (combineAt aggTypes input result i).map (first :: ·) := by
  cases htype : aggTypes[i]? with
  | none => simp [combineAt, htype, Except.map]
  | some other =>
      cases hold : result[i]? with
      | none => simp [combineAt, hold, Except.map]
      | some old =>
          cases hvalue : input[i]? with
          | none => simp [combineAt, hvalue, Except.map]
          | some new =>
              rw [combineAt_eq htype hold hvalue, combineAt_eq (by simpa using htype)
                (by simpa using hold) (by simpa using hvalue)]
              cases combineOne other old new <;> rfl

/-- `CombineAggregateValues` goes from one aggregate to the next. -/
theorem combineAggregateValues_cons (aggType : AggregationType) (value old : Value)
    (input result : List Value) :
    combineAggregateValues (aggType :: aggTypes) (value :: input) (old :: result) =
      combineOne aggType old value >>= fun combined =>
        (combineAggregateValues aggTypes input result).map (combined :: ·) := by
  have hshift : ∀ (indices : List Nat) (result : List Value) (first : Value),
      (indices.map Nat.succ).foldlM (combineAt (aggType :: aggTypes) (value :: input))
        (first :: result) =
        (indices.foldlM (combineAt aggTypes input) result).map (first :: ·) := by
    intro indices
    induction indices with
    | nil => exact fun result first => rfl
    | cons i indices ih =>
        intro result first
        rw [List.map_cons, List.foldlM_cons, List.foldlM_cons, combineAt_succ]
        cases combineAt aggTypes input result i with
        | error fault => rfl
        | ok next => exact ih next first
  unfold combineAggregateValues
  rw [List.length_cons, List.range_succ_eq_map, List.foldlM_cons, combineAt_eq rfl rfl rfl]
  cases combineOne aggType old value with
  | error fault => rfl
  | ok combined => exact hshift (List.range input.length) result combined

/-- There is nothing to combine with. -/
theorem combineAggregateValues_nil (aggType : AggregationType) (value : Value)
    (input : List Value) :
    combineAggregateValues (aggType :: aggTypes) (value :: input) [] = .error .noSuchEntry := by
  unfold combineAggregateValues
  rw [List.length_cons, List.range_succ_eq_map, List.foldlM_cons]
  rfl

/-- There are as many aggregates as before. -/
theorem length_combineAggregateValues {input result final : List Value}
    (hinput : input.length = aggTypes.length) (hresult : result.length = aggTypes.length)
    (h : combineAggregateValues aggTypes input result = .ok final) :
    final.length = aggTypes.length := by
  induction aggTypes generalizing input result final with
  | nil =>
      rw [List.length_eq_zero_iff.mp hinput] at h
      cases h
      exact hresult
  | cons aggType aggTypes ih =>
      obtain ⟨value, input, rfl⟩ := List.exists_cons_of_length_eq_add_one hinput
      obtain ⟨old, result, rfl⟩ := List.exists_cons_of_length_eq_add_one hresult
      rw [combineAggregateValues_cons] at h
      obtain ⟨combined, -, hrest⟩ := Except.bind_eq_ok_iff.mp h
      cases hcombine : combineAggregateValues aggTypes input result with
      | error fault =>
          rw [hcombine] at hrest
          cases hrest
      | ok rest =>
          rw [hcombine] at hrest
          cases hrest
          exact congrArg Nat.succ (ih (Nat.succ.inj hinput) (Nat.succ.inj hresult) hcombine)

/-- As many values as there are aggregates are combined without an index beyond the end. -/
theorem staysInside_combineAggregateValues (hstod : Value.StodThrows) {input result : List Value}
    (hinput : input.length = aggTypes.length) (hresult : result.length = aggTypes.length) :
    Value.StaysInside (combineAggregateValues aggTypes input result) := by
  induction aggTypes generalizing input result with
  | nil =>
      rw [List.length_eq_zero_iff.mp hinput]
      exact Value.staysInside_ok result
  | cons aggType aggTypes ih =>
      obtain ⟨value, input, rfl⟩ := List.exists_cons_of_length_eq_add_one hinput
      obtain ⟨old, result, rfl⟩ := List.exists_cons_of_length_eq_add_one hresult
      have hone : Value.StaysInside (combineOne aggType old value) := by
        cases aggType with
        | countAggregate => exact Value.staysInside_operate hstod .add _ _
        | sumAggregate => exact Value.staysInside_operate hstod .add _ _
        | minAggregate => exact Value.staysInside_min hstod _ _
        | maxAggregate => exact Value.staysInside_max hstod _ _
      rw [combineAggregateValues_cons]
      apply hone.bind
      intro combined
      have hrest := ih (Nat.succ.inj hinput) (Nat.succ.inj hresult)
      cases hcombine : combineAggregateValues aggTypes input result with
      | error fault =>
          rw [hcombine] at hrest
          exact Value.staysInside_error fun heq => hrest (congrArg Except.error heq)
      | ok rest => exact Value.staysInside_ok _

omit [DoubleText] [DoubleArithmetic] in
@[simp] theorem length_generateInitialAggregateValue (aggTypes : List AggregationType) :
    (generateInitialAggregateValue aggTypes).length = aggTypes.length :=
  List.length_map _

/-! ## `InsertCombine` -/

section InsertCombine

variable {types : List TypeId} {key aggVal : List Value} {ht : List (KeyedEntry (List Value))}

/-- The entry that a key gets. -/
def newEntry (key value : List Value) : KeyedEntry (List Value) where
  hash := hashOfKey key
  key := key
  value := value

theorem insertCombine_eq (hkey : KeyOfTypes types key) (hkeyed : KeyedEntry.Keyed types ht) :
    insertCombine aggTypes key aggVal ht =
      KeyedEntry.alter (hashOfKey key) key [] (combineAggregateValues aggTypes aggVal)
        (if ht.any fun entry => sameKeys key entry.key then ht
          else ht ++ [newEntry key (generateInitialAggregateValue aggTypes)]) := by
  unfold insertCombine
  rw [hashKey_eq]
  change (KeyedEntry.contains (hashOfKey key) key ht >>= _) = _
  rw [KeyedEntry.contains_eq hkey hkeyed]
  rfl

/-- The first entry of the key is changed. -/
theorem insertCombine_found {before after : List (KeyedEntry (List Value))}
    {entry : KeyedEntry (List Value)} (hkey : KeyOfTypes types key)
    (hkeyed : KeyedEntry.Keyed types (before ++ entry :: after))
    (hbefore : ∀ other ∈ before, sameKeys key other.key = false)
    (hsame : sameKeys key entry.key = true) :
    insertCombine aggTypes key aggVal (before ++ entry :: after) =
      (combineAggregateValues aggTypes aggVal entry.value).map
        fun value => before ++ { entry with value } :: after := by
  have hany : (before ++ entry :: after).any (fun entry => sameKeys key entry.key) = true :=
    List.any_eq_true.mpr ⟨entry, List.mem_append_right before List.mem_cons_self, hsame⟩
  rw [insertCombine_eq hkey hkeyed, if_pos hany]
  exact KeyedEntry.alter_found hkey hkeyed hbefore hsame

/-- A key that is equal to itself gets an entry. -/
theorem insertCombine_new (hkey : KeyOfTypes types key) (hkeyed : KeyedEntry.Keyed types ht)
    (hnone : ∀ other ∈ ht, sameKeys key other.key = false) (hself : sameKeys key key = true) :
    insertCombine aggTypes key aggVal ht =
      (combineAggregateValues aggTypes aggVal (generateInitialAggregateValue aggTypes)).map
        fun value => ht ++ [newEntry key value] := by
  have hany : ht.any (fun entry => sameKeys key entry.key) = false :=
    List.any_eq_false.mpr fun other hmem => by simp [hnone other hmem]
  have hkeyed' : KeyedEntry.Keyed types
      (ht ++ newEntry key (generateInitialAggregateValue aggTypes) :: []) :=
    List.forall_mem_append.mpr ⟨hkeyed, List.forall_mem_singleton.mpr ⟨rfl, hkey⟩⟩
  rw [insertCombine_eq hkey hkeyed, hany, if_neg Bool.false_ne_true]
  exact KeyedEntry.alter_found hkey hkeyed' hnone hself

/-- A key that is not equal to itself gets an entry that is not found, and another one. -/
theorem insertCombine_unequal (hkey : KeyOfTypes types key) (hkeyed : KeyedEntry.Keyed types ht)
    (hnone : ∀ other ∈ ht, sameKeys key other.key = false) (hself : sameKeys key key = false) :
    insertCombine aggTypes key aggVal ht =
      (combineAggregateValues aggTypes aggVal []).map fun value =>
        ht ++ [newEntry key (generateInitialAggregateValue aggTypes)] ++ [newEntry key value] := by
  have hany : ht.any (fun entry => sameKeys key entry.key) = false :=
    List.any_eq_false.mpr fun other hmem => by simp [hnone other hmem]
  have hkeyed' : KeyedEntry.Keyed types
      (ht ++ [newEntry key (generateInitialAggregateValue aggTypes)]) :=
    List.forall_mem_append.mpr ⟨hkeyed, List.forall_mem_singleton.mpr ⟨rfl, hkey⟩⟩
  have hnone' : ∀ other ∈ ht ++ [newEntry key (generateInitialAggregateValue aggTypes)],
      sameKeys key other.key = false :=
    List.forall_mem_append.mpr ⟨hnone, List.forall_mem_singleton.mpr hself⟩
  rw [insertCombine_eq hkey hkeyed, hany, if_neg Bool.false_ne_true]
  exact KeyedEntry.alter_none hkey hkeyed' hnone'

end InsertCombine

end SimpleAggregationHashTable

end BusTub
