import BusTub.Execution.AggregateTables
import BusTub.Types.WiderFields

/-! # Rows after an update

`GenerateUpdatedTuple` sets a column to an INTEGER, or to a sum that is as wide as an INTEGER at
least, whatever the column is, and the constructor of `Tuple` writes what it is given. The row is
the one that is asked for just if no column is narrower, and the numbers fit.
-/

namespace BusTub

open WrapAround

namespace UpdateInfo

/-- The number that an update asks for: the constant, or the old number and the constant. -/
def number (info : UpdateInfo) (old : Option Int) : Option Int :=
  match info.type with
  | .set => some info.updateVal.toInt
  | .add => old.map (· + info.updateVal.toInt)

/-- The sum does not fit the wider one of the types. -/
def Overflows (info : UpdateInfo) (type : IntegerType) (old : Option Int) : Prop :=
  info.type = .add ∧ ∃ i, old = some i ∧ info.updateVal ≠ Int32.minValue ∧
    ¬ Fits (type.wider .integer).width (i + info.updateVal.toInt)

/-- A field of the type has the number that the update asks for, as far as the sum fits. -/
def Takes (info : UpdateInfo) (type : IntegerType) (old : Option Int) : Prop :=
  match type, info.type with
  | .tinyint, _ => False
  | .smallint, _ => False
  | .integer, .set => info.updateVal ≠ Int32.minValue
  | .bigint, .set => 0 ≤ info.updateVal.toInt
  | type, .add =>
      ∀ i, old = some i → info.updateVal ≠ Int32.minValue ∧ i + info.updateVal.toInt ≠ type.null

end UpdateInfo

namespace Value

variable {value : Value} {type : IntegerType} {i : Int}

/-- The number of a value that is not NULL. -/
theorem number?_eq_ite (h : value.integerContent = some (type, i)) :
    value.number? = if i = type.null then none else some i := by
  rw [number?_of_integerContent h]
  exact if_congr (isNull_eq_true_iff h) rfl rfl

theorem number?_of_ne_none (h : value.integerContent = some (type, i))
    (hsome : value.number? ≠ none) : value.number? = some i := by
  have hite := number?_eq_ite h
  split at hite
  · exact absurd hite hsome
  · exact hite

theorem number?_value (h : Fits type.width i) :
    (type.value i).number? = if i = type.null then none else some i :=
  number?_eq_ite (integerContent_value_of_fits h)

theorem number?_null (type : IntegerType) : (type.value type.null).number? = none := by
  have hhalf := half_pos type.width
  have hfits : Fits type.width type.null := ⟨le_refl _, (neg_neg_of_pos hhalf).trans hhalf⟩
  rw [number?_value hfits, if_pos rfl]

theorem exists_content (htype : value.getTypeId = type.typeId) :
    ∃ i, value.integerContent = some (type, i) := by
  cases value with
  | tinyint content => cases type <;> first | exact ⟨_, rfl⟩ | cases htype
  | smallint content => cases type <;> first | exact ⟨_, rfl⟩ | cases htype
  | integer content => cases type <;> first | exact ⟨_, rfl⟩ | cases htype
  | bigint content => cases type <;> first | exact ⟨_, rfl⟩ | cases htype
  | _ => cases type <;> cases htype

theorem number?_integer_iff (constant : Int32) :
    (Value.integer constant).number? = some constant.toInt ↔ constant ≠ Int32.minValue := by
  change (if (constant == Int32.minValue) = true then none else some constant.toInt) =
    some constant.toInt ↔ _
  split
  next hnull => exact iff_of_false nofun (not_not.mpr (beq_iff_eq.mp hnull))
  next hsome => exact iff_of_true rfl fun hnull => hsome (beq_iff_eq.mpr hnull)

/-- A constant is its word unless it is negative. -/
theorem toNat_toUInt32_eq_iff (constant : Int32) :
    (constant.toUInt32.toNat : Int) = constant.toInt ↔ 0 ≤ constant.toInt := by
  change (constant.toBitVec.toNat : Int) = constant.toBitVec.toInt ↔ 0 ≤ constant.toBitVec.toInt
  have hword := constant.toBitVec.isLt
  rw [BitVec.toInt_eq_toNat_cond]
  split <;> omega

/-- The content of a word of eight bytes that begins with an INTEGER and ends with zeros. -/
theorem toInt_ofNat_toUInt32 (constant : Int32) :
    (UInt64.ofNat constant.toUInt32.toNat).toInt64.toInt = (constant.toUInt32.toNat : Int) := by
  have hword := constant.toUInt32.toNat_lt
  change (UInt64.ofNat constant.toUInt32.toNat).toBitVec.toInt = _
  rw [BitVec.toInt_eq_toNat_cond, UInt64.toNat_toBitVec,
    UInt64.toNat_ofNat_of_lt' (hword.trans (by decide)), if_pos (by omega)]

/-- An INTEGER in the field of a BIGINT is read as its number unless that is negative. -/
theorem number?_held_iff {column : Column} (hcolumn : column.columnType = .bigint)
    (constant : Int32) :
    (column.held (.integer constant)).number? = some constant.toInt ↔ 0 ≤ constant.toInt := by
  have hheld : (column.held (.integer constant)).integerContent =
      some (.bigint, (constant.toUInt32.toNat : Int)) := by
    unfold Column.held
    rw [hcolumn, ← toInt_ofNat_toUInt32]
    rfl
  have hword : (constant.toUInt32.toNat : Int) ≠ IntegerType.bigint.null := by
    change (constant.toUInt32.toNat : Int) ≠ -2 ^ 63
    omega
  rw [number?_eq_ite hheld, if_neg hword, Option.some_inj]
  exact toNat_toUInt32_eq_iff constant

variable [DoubleText] [DoubleArithmetic] {constant : Int32}

/-- A sum with NULL is NULL. -/
theorem add_null (h : value.integerContent = some (type, i))
    (hnull : value.number? = none ∨ constant = Int32.minValue) :
    add value (.integer constant) =
      .ok ((type.wider .integer).value (type.wider .integer).null) := by
  have hconstant : (Value.integer constant).integerContent = some (.integer, constant.toInt) := rfl
  have heither : (value.isNull || (Value.integer constant).isNull) = true := by
    rw [Bool.or_eq_true]
    refine hnull.imp (fun hnone => ?_) beq_iff_eq.mpr
    by_contra hsome
    rw [number?_of_integerContent h, if_neg hsome] at hnone
    cases hnone
  unfold add
  rw [operate_of_integers .add h hconstant]
  unfold unlessNull
  rw [checkComparable_of_integers h hconstant, if_neg (by decide), if_pos heither]
  unfold operateNull
  rw [h, hconstant]

/-- A sum of two numbers is exact, or it does not fit. -/
theorem add_some (h : value.integerContent = some (type, i)) (hsome : value.number? ≠ none)
    (hconstant : constant ≠ Int32.minValue) :
    add value (.integer constant) =
      if Fits (type.wider .integer).width (i + constant.toInt) then
        .ok ((type.wider .integer).value (i + constant.toInt))
      else .error .outOfRange := by
  refine operate_eq .add h rfl ?_ (beq_eq_false_iff_ne.mpr hconstant)
  rw [number?_of_integerContent h] at hsome
  cases hnull : value.isNull with
  | true => exact absurd (if_pos hnull) hsome
  | false => rfl

variable {sum : Value}

/-- A sum has the wider one of the types. -/
theorem getTypeId_of_add (h : value.integerContent = some (type, i))
    (hok : add value (.integer constant) = .ok sum) :
    sum.getTypeId = (type.wider .integer).typeId := by
  by_cases hnull : value.number? = none ∨ constant = Int32.minValue
  · rw [add_null h hnull] at hok
    cases hok
    exact getTypeId_value _ _
  · rw [not_or] at hnull
    rw [add_some h hnull.1 hnull.2] at hok
    split at hok
    · cases hok
      exact getTypeId_value _ _
    · cases hok

/-- A sum is the one that is asked for unless the constant or the sum stands for NULL. -/
theorem number?_add_iff (h : value.integerContent = some (type, i))
    (hok : add value (.integer constant) = .ok sum) :
    sum.number? = value.number?.map (· + constant.toInt) ↔
      ∀ j, value.number? = some j →
        constant ≠ Int32.minValue ∧ j + constant.toInt ≠ (type.wider .integer).null := by
  by_cases hnull : value.number? = none ∨ constant = Int32.minValue
  · rw [add_null h hnull] at hok
    cases hok
    rw [number?_null]
    rcases hvalue : value.number? with _ | j
    · exact iff_of_true rfl nofun
    · rw [hvalue] at hnull
      refine iff_of_false nofun fun hall => ?_
      exact (hall j rfl).1 (hnull.resolve_left nofun)
  · rw [not_or] at hnull
    rw [add_some h hnull.1 hnull.2] at hok
    have hnumber := number?_of_ne_none h hnull.1
    split at hok
    next hfits =>
      cases hok
      rw [number?_value hfits, hnumber, Option.map_some]
      constructor
      · intro hsome j hj
        cases hj
        refine ⟨hnull.2, fun hsum => ?_⟩
        rw [if_pos hsum] at hsome
        cases hsome
      · intro hall
        rw [if_neg (hall i rfl).2]
    next => cases hok

end Value

namespace UpdateInfo

variable [DoubleText] [DoubleArithmetic] {info : UpdateInfo} {old written : Value}
  {type : IntegerType} {i : Int}

/-- The value that an update writes. -/
def write (info : UpdateInfo) (old : Value) : Except EvalFault Value :=
  match info.type with
  | .add => Value.add old (.integer info.updateVal)
  | .set => .ok (.integer info.updateVal)

/-- The statement fails if a sum does not fit. -/
theorem write_of_overflows (h : old.integerContent = some (type, i))
    (hoverflows : info.Overflows type old.number?) : info.write old = .error .outOfRange := by
  obtain ⟨hadd, j, hj, hconstant, hfits⟩ := hoverflows
  have hsome : old.number? ≠ none := by
    rw [hj]
    exact nofun
  obtain rfl : j = i := Option.some.inj (hj.symm.trans (Value.number?_of_ne_none h hsome))
  unfold write
  rw [hadd]
  exact (Value.add_some h hsome hconstant).trans (if_neg hfits)

/-- There is nothing else that lets it fail. -/
theorem exists_write (h : old.integerContent = some (type, i))
    (hoverflows : ¬ info.Overflows type old.number?) : ∃ written, info.write old = .ok written := by
  unfold write
  cases hinfo : info.type with
  | set => exact ⟨_, rfl⟩
  | add =>
      by_cases hnull : old.number? = none ∨ info.updateVal = Int32.minValue
      · exact ⟨_, Value.add_null h hnull⟩
      · rw [not_or] at hnull
        have hnumber := Value.number?_of_ne_none h hnull.1
        have hfits : Fits (type.wider .integer).width (i + info.updateVal.toInt) := by
          by_contra hfits
          exact hoverflows ⟨hinfo, i, hnumber, hnull.2, hfits⟩
        exact ⟨_, (Value.add_some h hnull.1 hnull.2).trans (if_pos hfits)⟩

/-- What is written is an INTEGER unless a number is added to a BIGINT. -/
theorem getTypeId_write (h : old.integerContent = some (type, i))
    (hok : info.write old = .ok written) : written.getTypeId =
      if type = .bigint ∧ info.type = .add then .bigint else .integer := by
  unfold write at hok
  cases hinfo : info.type with
  | set =>
      rw [hinfo] at hok
      cases hok
      rw [if_neg (by simp)]
      rfl
  | add =>
      rw [hinfo] at hok
      rw [Value.getTypeId_of_add h hok]
      cases type <;> rfl

/-- What is written is as wide as an INTEGER at least. -/
theorem length_write (h : old.integerContent = some (type, i))
    (hok : info.write old = .ok written) :
    written.getTypeId ≠ .varchar ∧ written.serialize.length =
      if type = .bigint ∧ info.type = .add then 8 else 4 := by
  have htype := getTypeId_write h hok
  have hinlined : written.getTypeId ≠ .varchar := by
    rw [htype]
    split <;> decide
  refine ⟨hinlined, ?_⟩
  rw [Tuple.length_serialize_of_inlined hinlined, htype]
  split <;> rfl

variable {column : Column}

/-- What is written stays inside the field of a column that is as wide as an INTEGER. -/
theorem length_write_le_iff (h : old.integerContent = some (type, i))
    (hcolumn : column.columnType = type.typeId) (hok : info.write old = .ok written) :
    written.serialize.length ≤ column.fixedLength ↔ type = .integer ∨ type = .bigint := by
  have hlength := (length_write h hok).2
  unfold Column.fixedLength
  rw [hlength, hcolumn]
  cases type with
  | bigint => exact iff_of_true (by split <;> decide) (.inr rfl)
  | _ =>
      rw [if_neg (by simp)]
      decide

/-- A column admits what does not reach beyond its field. -/
theorem admits_of_length_le (h : old.integerContent = some (type, i))
    (hcolumn : column.columnType = type.typeId) (hok : info.write old = .ok written)
    (hinside : written.serialize.length ≤ column.fixedLength) : column.Admits written := by
  unfold Column.Admits
  rw [hcolumn, getTypeId_write h hok]
  rcases (length_write_le_iff h hcolumn hok).mp hinside with rfl | rfl
  · left
    rw [if_neg (by simp)]
    rfl
  · cases hinfo : info.type with
    | set =>
        right
        rw [if_neg (by simp)]
        exact ⟨rfl, rfl⟩
    | add =>
        left
        rw [if_pos (by simp)]
        rfl

/-- The update of a column is written to its field and read back from it just if the field takes
it. -/
theorem field_iff (h : old.integerContent = some (type, i))
    (hcolumn : column.columnType = type.typeId) (hok : info.write old = .ok written) :
    written.serialize.length ≤ column.fixedLength ∧
        (column.held written).number? = info.number old.number? ↔
      info.Takes type old.number? := by
  have htype := getTypeId_write h hok
  rw [length_write_le_iff h hcolumn hok]
  unfold write at hok
  cases type with
  | tinyint => exact iff_of_false (by simp) id
  | smallint => exact iff_of_false (by simp) id
  | integer =>
      rw [if_neg (by simp)] at htype
      rw [and_iff_right (.inl rfl), Column.held_of_type (htype.trans hcolumn.symm)]
      unfold number Takes
      cases hinfo : info.type with
      | set =>
          rw [hinfo] at hok
          cases hok
          exact Value.number?_integer_iff _
      | add =>
          rw [hinfo] at hok
          exact Value.number?_add_iff h hok
  | bigint =>
      rw [and_iff_right (.inr rfl)]
      unfold number Takes
      cases hinfo : info.type with
      | set =>
          rw [hinfo] at hok
          cases hok
          exact Value.number?_held_iff hcolumn _
      | add =>
          rw [hinfo] at hok htype
          rw [if_pos ⟨rfl, rfl⟩] at htype
          rw [Column.held_of_type (htype.trans hcolumn.symm)]
          exact Value.number?_add_iff h hok

end UpdateInfo

namespace UpdateExecutor

/-- The plan updates a column of the type, where the row has the old value. -/
structure Updates (exec : UpdateExecutor) (olds : List Value) (idx : Nat) (info : UpdateInfo)
    (type : IntegerType) (old : Value) : Prop where
  planned : exec.plan.updateAttrs.lookup idx = some info
  typed : (exec.tableInfo.schema.columns[idx]?).map Column.columnType = some type.typeId
  held : olds[idx]? = some old

/-- The plan updates columns of integer types only. -/
def UpdatesIntegers (exec : UpdateExecutor) : Prop :=
  ∀ (idx : Nat) (info : UpdateInfo) (column : Column),
    exec.plan.updateAttrs.lookup idx = some info →
      exec.tableInfo.schema.columns[idx]? = some column →
        ∃ type : IntegerType, column.columnType = type.typeId

section Row

variable {exec : UpdateExecutor} {srcTuple : Tuple} {olds : List Value} {idx : Nat}
  {info : UpdateInfo} {type : IntegerType} {old : Value} {column : Column}
  (hrow : (List.range exec.tableInfo.schema.columns.length).mapM
    (srcTuple.getValue exec.tableInfo.schema) = .ok olds)

include hrow

theorem Updates.getValue_eq (h : exec.Updates olds idx info type old) :
    srcTuple.getValue exec.tableInfo.schema idx = .ok old :=
  (Except.mapM_range_eq_ok_iff.mp hrow).2 _ _ h.held

/-- The old value of an updated column is of its type. -/
theorem Updates.exists_content (h : exec.Updates olds idx info type old) :
    ∃ i, old.integerContent = some (type, i) := by
  have htype := Tuple.getTypeId_of_getValue (Updates.getValue_eq hrow h)
  rw [h.typed, Option.some.injEq] at htype
  exact Value.exists_content htype.symm

theorem exists_old (hcolumn : exec.tableInfo.schema.columns[idx]? = some column) :
    ∃ old, olds[idx]? = some old ∧ srcTuple.getValue exec.tableInfo.schema idx = .ok old ∧
      old.getTypeId = column.columnType := by
  obtain ⟨hlength, hget⟩ := Except.mapM_range_eq_ok_iff.mp hrow
  obtain ⟨hidx, -⟩ := List.getElem?_eq_some_iff.mp hcolumn
  obtain ⟨old, hold⟩ : ∃ old, olds[idx]? = some old :=
    ⟨_, List.getElem?_eq_getElem (by omega)⟩
  have htype := Tuple.getTypeId_of_getValue (hget _ _ hold)
  rw [hcolumn, Option.map_some, Option.some.injEq] at htype
  exact ⟨old, hold, hget _ _ hold, htype.symm⟩

omit hrow in
/-- A column of a plan for integer columns is left alone, or it is updated. -/
theorem updates_or_none (hintegers : exec.UpdatesIntegers)
    (hcolumn : exec.tableInfo.schema.columns[idx]? = some column) (hold : olds[idx]? = some old) :
    exec.plan.updateAttrs.lookup idx = none ∨ ∃ info type, exec.Updates olds idx info type old ∧
      column.columnType = type.typeId := by
  cases hinfo : exec.plan.updateAttrs.lookup idx with
  | none => exact .inl rfl
  | some info =>
      obtain ⟨type, htype⟩ := hintegers idx info column hinfo hcolumn
      refine .inr ⟨info, type, ⟨hinfo, ?_, hold⟩, htype⟩
      rw [hcolumn, Option.map_some, htype]

end Row

variable [DoubleText] [DoubleArithmetic]

/-- A column of the new row: the old value, or the number that is asked for, which is written
inside the field of the column. `GetValue` gives a value of the type of the column. -/
def IsUpdated (exec : UpdateExecutor) (srcTuple tuple : Tuple) (idx : Nat) (column : Column) :
    Prop :=
  match exec.plan.updateAttrs.lookup idx with
  | none => tuple.getValue exec.tableInfo.schema idx = srcTuple.getValue exec.tableInfo.schema idx
  | some info => ∃ old written value : Value,
      srcTuple.getValue exec.tableInfo.schema idx = .ok old ∧
        exec.updatedValue srcTuple idx = .ok written ∧
          written.serialize.length ≤ column.fixedLength ∧
            tuple.getValue exec.tableInfo.schema idx = .ok value ∧
              value.number? = info.number old.number?

/-- The new row is the one that is asked for, or the statement fails before a row is written. -/
def Produces (exec : UpdateExecutor) (srcTuple : Tuple) : Except EvalFault Tuple → Prop
  | .error fault => fault ≠ .outOfBounds
  | .ok tuple => ∀ (idx : Nat) (column : Column),
      exec.tableInfo.schema.columns[idx]? = some column → exec.IsUpdated srcTuple tuple idx column

variable {exec : UpdateExecutor} {srcTuple tuple : Tuple} {olds values : List Value} {idx : Nat}
  {info : UpdateInfo} {type : IntegerType} {old value : Value} {column : Column}

theorem updatedValue_of_none (hinfo : exec.plan.updateAttrs.lookup idx = none) :
    exec.updatedValue srcTuple idx = srcTuple.getValue exec.tableInfo.schema idx := by
  unfold updatedValue
  rw [hinfo]

theorem updatedValue_of_some (hinfo : exec.plan.updateAttrs.lookup idx = some info)
    (hold : srcTuple.getValue exec.tableInfo.schema idx = .ok old) :
    exec.updatedValue srcTuple idx = info.write old := by
  unfold updatedValue UpdateInfo.write
  rw [hinfo, hold]
  rfl

section NewRow

variable
  (hrow : (List.range exec.tableInfo.schema.columns.length).mapM
    (srcTuple.getValue exec.tableInfo.schema) = .ok olds)
  (hintegers : exec.UpdatesIntegers)

include hrow hintegers

/-- No column fails for another reason than a sum that does not fit. -/
theorem updatedValue_error {fault : EvalFault}
    (hcolumn : exec.tableInfo.schema.columns[idx]? = some column)
    (hfault : exec.updatedValue srcTuple idx = .error fault) :
    fault = .outOfRange ∧ ∃ info type old,
      exec.Updates olds idx info type old ∧ info.Overflows type old.number? := by
  obtain ⟨old, hold, hget, -⟩ := exists_old hrow hcolumn
  rcases updates_or_none hintegers hcolumn hold with hinfo | ⟨info, type, hupdates, -⟩
  · rw [updatedValue_of_none hinfo, hget] at hfault
    cases hfault
  · obtain ⟨i, hcontent⟩ := Updates.exists_content hrow hupdates
    rw [updatedValue_of_some hupdates.planned hget] at hfault
    by_cases hoverflows : info.Overflows type old.number?
    · rw [UpdateInfo.write_of_overflows hcontent hoverflows] at hfault
      cases hfault
      exact ⟨rfl, info, type, old, hupdates, hoverflows⟩
    · obtain ⟨written, hwritten⟩ := UpdateInfo.exists_write hcontent hoverflows
      rw [hwritten] at hfault
      cases hfault

/-- The statement fails if a sum does not fit. -/
theorem mapM_of_overflows (hupdates : exec.Updates olds idx info type old)
    (hoverflows : info.Overflows type old.number?) :
    (List.range exec.tableInfo.schema.columns.length).mapM (exec.updatedValue srcTuple) =
      .error .outOfRange := by
  obtain ⟨i, hcontent⟩ := Updates.exists_content hrow hupdates
  cases hmap : (List.range exec.tableInfo.schema.columns.length).mapM
      (exec.updatedValue srcTuple) with
  | error fault =>
      obtain ⟨j, hj, hfault⟩ := Except.exists_of_mapM_eq_error hmap
      have hcolumn := List.getElem?_eq_getElem (List.mem_range.mp hj)
      rw [(updatedValue_error hrow hintegers hcolumn hfault).1]
  | ok values =>
      obtain ⟨hlength, hget⟩ := Except.mapM_range_eq_ok_iff.mp hmap
      have hidx : idx < values.length := by
        rw [hlength]
        obtain ⟨column, hcolumn, -⟩ := Option.map_eq_some_iff.mp hupdates.typed
        exact (List.getElem?_eq_some_iff.mp hcolumn).1
      have hwrite := hget idx _ (List.getElem?_eq_getElem hidx)
      rw [updatedValue_of_some hupdates.planned (Updates.getValue_eq hrow hupdates),
        UpdateInfo.write_of_overflows hcontent hoverflows] at hwrite
      cases hwrite

theorem exists_values
    (hfits : ∀ (idx : Nat) (info : UpdateInfo) (type : IntegerType) (old : Value),
      exec.Updates olds idx info type old → ¬ info.Overflows type old.number?) :
    ∃ values, (List.range exec.tableInfo.schema.columns.length).mapM
      (exec.updatedValue srcTuple) = .ok values := by
  cases hmap : (List.range exec.tableInfo.schema.columns.length).mapM
      (exec.updatedValue srcTuple) with
  | ok values => exact ⟨values, rfl⟩
  | error fault =>
      obtain ⟨j, hj, hfault⟩ := Except.exists_of_mapM_eq_error hmap
      have hcolumn := List.getElem?_eq_getElem (List.mem_range.mp hj)
      obtain ⟨-, info, type, old, hupdates, hoverflows⟩ :=
        updatedValue_error hrow hintegers hcolumn hfault
      exact absurd hoverflows (hfits _ _ _ _ hupdates)

section Values

variable (hvalues : (List.range exec.tableInfo.schema.columns.length).mapM
  (exec.updatedValue srcTuple) = .ok values)

include hvalues

/-- A value of the new row is the old one, or what the update of its column writes. -/
theorem value_or_written (hcolumn : exec.tableInfo.schema.columns[idx]? = some column)
    (hvalue : values[idx]? = some value) :
    ∃ old, olds[idx]? = some old ∧ srcTuple.getValue exec.tableInfo.schema idx = .ok old ∧
      old.getTypeId = column.columnType ∧
        ((exec.plan.updateAttrs.lookup idx = none ∧ value = old) ∨
          ∃ info type i, exec.Updates olds idx info type old ∧ column.columnType = type.typeId ∧
            old.integerContent = some (type, i) ∧ info.write old = .ok value) := by
  obtain ⟨old, hold, hget, htype⟩ := exists_old hrow hcolumn
  refine ⟨old, hold, hget, htype, ?_⟩
  have hupdated := (Except.mapM_range_eq_ok_iff.mp hvalues).2 idx value hvalue
  rcases updates_or_none hintegers hcolumn hold with hinfo | ⟨info, type, hupdates, hinteger⟩
  · left
    rw [updatedValue_of_none hinfo, hget] at hupdated
    exact ⟨hinfo, (Except.ok.inj hupdated).symm⟩
  · right
    obtain ⟨i, hcontent⟩ := Updates.exists_content hrow hupdates
    rw [updatedValue_of_some hupdates.planned hget] at hupdated
    exact ⟨info, type, i, hupdates, hinteger, hcontent, hupdated⟩

/-- There are strings for the columns of strings. -/
theorem shaped_values : Tuple.Shaped exec.tableInfo.schema.columns values := by
  have hlength := (Except.mapM_range_eq_ok_iff.mp hvalues).1
  apply List.ext_getElem?
  intro i
  rw [List.getElem?_map, List.getElem?_map]
  cases hvalue : values[i]? with
  | none =>
      rw [List.getElem?_eq_none_iff.mpr (hlength ▸ List.getElem?_eq_none_iff.mp hvalue)]
      rfl
  | some value =>
      obtain ⟨hi, -⟩ := List.getElem?_eq_some_iff.mp hvalue
      have hcolumn := List.getElem?_eq_getElem (hlength ▸ hi)
      obtain ⟨old, -, -, htype, hold⟩ := value_or_written hrow hintegers hvalues hcolumn hvalue
      rw [hcolumn, Option.map_some, Option.map_some]
      unfold Column.isInlined
      rcases hold with ⟨-, rfl⟩ | ⟨info, type, i, -, hinteger, hcontent, hwrite⟩
      · rw [htype]
      · rw [bne_iff_ne.mpr (UpdateInfo.length_write hcontent hwrite).1, hinteger]
        cases type <;> rfl

/-- The strings are those of the old row. -/
theorem varlens_values : varlens values = varlens olds := by
  have hlength := (Except.mapM_range_eq_ok_iff.mp hvalues).1
  have holds := (Except.mapM_range_eq_ok_iff.mp hrow).1
  apply Tuple.varlens_congr
  refine List.forall₂_iff_get.mpr ⟨holds.trans hlength.symm, fun i hi hi' => ?_⟩
  have hcolumn := List.getElem?_eq_getElem (hlength ▸ hi')
  obtain ⟨old, hold, -, htype, hkind⟩ :=
    value_or_written hrow hintegers hvalues hcolumn (List.getElem?_eq_getElem hi')
  obtain ⟨_, hget⟩ := List.getElem?_eq_some_iff.mp hold
  rw [List.get_eq_getElem, List.get_eq_getElem, hget]
  rcases hkind with ⟨-, hsame⟩ | ⟨info, type, n, -, hinteger, hcontent, hwrite⟩
  · exact .inl hsame
  · refine .inr ⟨?_, (UpdateInfo.length_write hcontent hwrite).1⟩
    rw [htype, hinteger]
    cases type <;> decide

/-- The columns admit the new values if what is written stays inside the fields. -/
theorem admits_values
    (hinside : ∀ (idx : Nat) (info : UpdateInfo) (column : Column) (written : Value),
      exec.plan.updateAttrs.lookup idx = some info →
        exec.tableInfo.schema.columns[idx]? = some column → values[idx]? = some written →
          written.serialize.length ≤ column.fixedLength) :
    exec.tableInfo.schema.Admits values := by
  have hlength := (Except.mapM_range_eq_ok_iff.mp hvalues).1
  refine List.forall₂_iff_get.mpr ⟨hlength.symm, fun i hi hi' => ?_⟩
  have hcolumn := List.getElem?_eq_getElem hi
  have hvalue := List.getElem?_eq_getElem hi'
  obtain ⟨old, -, -, htype, hkind⟩ := value_or_written hrow hintegers hvalues hcolumn hvalue
  rcases hkind with ⟨-, hsame⟩ | ⟨info, type, n, hupdates, hinteger, hcontent, hwrite⟩
  · left
    rw [List.get_eq_getElem, List.get_eq_getElem, hsame, htype]
  · exact UpdateInfo.admits_of_length_le hcontent hinteger hwrite
      (hinside i info _ _ hupdates.planned hcolumn hvalue)

/-- The fields take what is asked for just if it is written inside them and they have it then. -/
theorem takes_iff :
    (∀ (idx : Nat) (info : UpdateInfo) (type : IntegerType) (old : Value),
      exec.Updates olds idx info type old → info.Takes type old.number?) ↔
      ∀ (idx : Nat) (info : UpdateInfo) (column : Column) (value : Value),
        exec.plan.updateAttrs.lookup idx = some info →
          exec.tableInfo.schema.columns[idx]? = some column → values[idx]? = some value →
            ∃ old, srcTuple.getValue exec.tableInfo.schema idx = .ok old ∧
              value.serialize.length ≤ column.fixedLength ∧
                (column.held value).number? = info.number old.number? := by
  constructor
  · intro htakes idx info column value hinfo hcolumn hvalue
    obtain ⟨old, -, hold, -, hkind⟩ := value_or_written hrow hintegers hvalues hcolumn hvalue
    rcases hkind with ⟨hnone, -⟩ | ⟨info', type, i, hupdates, htype, hcontent, hwrite⟩
    · rw [hinfo] at hnone
      cases hnone
    · cases hinfo.symm.trans hupdates.planned
      have hfield := UpdateInfo.field_iff hcontent htype hwrite
      exact ⟨old, hold, hfield.mpr (htakes _ _ _ _ hupdates)⟩
  · intro hfields idx info type old hupdates
    obtain ⟨column, hcolumn, htype⟩ := Option.map_eq_some_iff.mp hupdates.typed
    obtain ⟨i, hcontent⟩ := Updates.exists_content hrow hupdates
    have hold := Updates.getValue_eq hrow hupdates
    obtain ⟨hlength, hget⟩ := Except.mapM_range_eq_ok_iff.mp hvalues
    obtain ⟨hidx, -⟩ := List.getElem?_eq_some_iff.mp hcolumn
    have hvalue := List.getElem?_eq_getElem (hlength ▸ hidx)
    have hwrite := hget _ _ hvalue
    rw [updatedValue_of_some hupdates.planned hold] at hwrite
    obtain ⟨old', hold', hfield⟩ := hfields idx info column _ hupdates.planned hcolumn hvalue
    cases hold.symm.trans hold'
    exact (UpdateInfo.field_iff hcontent htype hwrite).mp hfield

variable (hfits : exec.tableInfo.schema.fixedLength < 2 ^ 32)

include hfits

/-- Fields that take what is asked for, and strings that can be read back, make the row. -/
theorem produces_of_takes
    (htakes : ∀ (idx : Nat) (info : UpdateInfo) (type : IntegerType) (old : Value),
      exec.Updates olds idx info type old → info.Takes type old.number?)
    (hcovered : NullsCovered (varlens olds))
    (hoffsets : OffsetsFit exec.tableInfo.schema.fixedLength (varlens olds)) :
    exec.Produces srcTuple (Tuple.ofValues values exec.tableInfo.schema) := by
  have hfields := (takes_iff hrow hintegers hvalues).mp htakes
  have hadmits : exec.tableInfo.schema.Admits values := by
    refine admits_values hrow hintegers hvalues fun idx info column value hinfo hcolumn hvalue => ?_
    obtain ⟨-, -, hinside, -⟩ := hfields idx info column value hinfo hcolumn hvalue
    exact hinside
  have hsmall := Tuple.offsetsFit_countedSum_lt hoffsets
  rw [← varlens_values hrow hintegers hvalues] at hsmall hcovered hoffsets
  rw [Tuple.ofValues_held hfits hadmits hsmall]
  rw [← Tuple.varlens_held hadmits] at hcovered hoffsets
  obtain ⟨tuple, htuple, hback⟩ :=
    (Tuple.roundTrips_iff _ _ hfits (Tuple.accepts_held hadmits)).mpr ⟨hcovered, hoffsets⟩
  rw [htuple]
  intro idx column hcolumn
  obtain ⟨hlength, hget⟩ := Except.mapM_range_eq_ok_iff.mp hvalues
  obtain ⟨hidx, -⟩ := List.getElem?_eq_some_iff.mp hcolumn
  have hvalue := List.getElem?_eq_getElem (hlength ▸ hidx)
  have hread := hback idx _ (Schema.getElem?_held hcolumn hvalue)
  unfold IsUpdated
  cases hinfo : exec.plan.updateAttrs.lookup idx with
  | none =>
      obtain ⟨old, -, hold, htype, hkind⟩ :=
        value_or_written hrow hintegers hvalues hcolumn hvalue
      rcases hkind with ⟨-, hsame⟩ | ⟨info, type, i, hupdates, -⟩
      · rw [hsame, Column.held_of_type htype] at hread
        exact hread.trans hold.symm
      · cases hinfo.symm.trans hupdates.planned
  | some info =>
      obtain ⟨old, hold, hinside, hnumber⟩ := hfields idx info column _ hinfo hcolumn hvalue
      exact ⟨old, _, _, hold, hget _ _ hvalue, hinside, hread, hnumber⟩

section Produced

variable
  (hupdated : ∀ (idx : Nat) (column : Column),
    exec.tableInfo.schema.columns[idx]? = some column → exec.IsUpdated srcTuple tuple idx column)

include hupdated

omit hrow hintegers hfits in
/-- What the row has in an updated column, by what is written there. -/
theorem updated_of_isUpdated (hinfo : exec.plan.updateAttrs.lookup idx = some info)
    (hcolumn : exec.tableInfo.schema.columns[idx]? = some column)
    (hvalue : values[idx]? = some value) :
    ∃ old read, srcTuple.getValue exec.tableInfo.schema idx = .ok old ∧
      value.serialize.length ≤ column.fixedLength ∧
        tuple.getValue exec.tableInfo.schema idx = .ok read ∧
          read.number? = info.number old.number? := by
  have hcolumnUpdated := hupdated idx column hcolumn
  unfold IsUpdated at hcolumnUpdated
  rw [hinfo] at hcolumnUpdated
  obtain ⟨old, written, read, hold, hwritten, hinside, hread, hnumber⟩ := hcolumnUpdated
  have hget := (Except.mapM_range_eq_ok_iff.mp hvalues).2 _ _ hvalue
  cases hget.symm.trans hwritten
  exact ⟨old, read, hold, hinside, hread, hnumber⟩

omit hfits in
theorem admits_of_isUpdated : exec.tableInfo.schema.Admits values := by
  refine admits_values hrow hintegers hvalues fun idx info column value hinfo hcolumn hvalue => ?_
  obtain ⟨-, -, -, hinside, -⟩ := updated_of_isUpdated hvalues hupdated hinfo hcolumn hvalue
  exact hinside

/-- The row gives back what its fields have. -/
theorem getValue_held (htuple : Tuple.ofValues values exec.tableInfo.schema = .ok tuple)
    (hcolumn : exec.tableInfo.schema.columns[idx]? = some column)
    (hvalue : values[idx]? = some value) :
    tuple.getValue exec.tableInfo.schema idx = .ok (column.held value) := by
  obtain ⟨old, -, hold, htype, hkind⟩ := value_or_written hrow hintegers hvalues hcolumn hvalue
  rcases hkind with ⟨hnone, rfl⟩ | ⟨info, type, i, hupdates, hinteger, hcontent, hwrite⟩
  · have hcolumnUpdated := hupdated idx column hcolumn
    unfold IsUpdated at hcolumnUpdated
    rw [hnone] at hcolumnUpdated
    rw [Column.held_of_type htype]
    exact hcolumnUpdated.trans hold
  · -- what an update writes is not a string, and such a value is always read back
    have hadmits := admits_of_isUpdated hrow hintegers hvalues hupdated
    have hshape := shaped_values hrow hintegers hvalues
    have hsmall := Tuple.countedSum_lt_of_ok hfits hshape htuple
    rw [Tuple.ofValues_held hfits hadmits hsmall] at htuple
    obtain ⟨-, -, -, hinside, -⟩ :=
      updated_of_isUpdated hvalues hupdated hupdates.planned hcolumn hvalue
    refine Tuple.getValue_of_inlined hfits (Tuple.accepts_held hadmits) htuple
      (Schema.getElem?_held hcolumn hvalue) ?_
    have hheld := UpdateInfo.admits_of_length_le hcontent hinteger hwrite hinside
    rw [hheld.getTypeId_held, hinteger]
    cases type <;> decide

end Produced

/-- A row that is the one that is asked for has such fields and strings. -/
theorem takes_of_produces
    (hproduces : exec.Produces srcTuple (Tuple.ofValues values exec.tableInfo.schema)) :
    (∀ (idx : Nat) (info : UpdateInfo) (type : IntegerType) (old : Value),
      exec.Updates olds idx info type old → info.Takes type old.number?) ∧
        NullsCovered (varlens olds) ∧
          OffsetsFit exec.tableInfo.schema.fixedLength (varlens olds) := by
  have hshape := shaped_values hrow hintegers hvalues
  have hvarlens := varlens_values hrow hintegers hvalues
  cases htuple : Tuple.ofValues values exec.tableInfo.schema with
  | error fault =>
      rw [htuple] at hproduces
      exact absurd (Tuple.ofValues_error hshape htuple) hproduces
  | ok tuple =>
      rw [htuple] at hproduces
      have hadmits := admits_of_isUpdated hrow hintegers hvalues hproduces
      have hheld := htuple
      rw [Tuple.ofValues_held hfits hadmits (Tuple.countedSum_lt_of_ok hfits hshape htuple)]
        at hheld
      have hback : Tuple.RoundTrips exec.tableInfo.schema
          (exec.tableInfo.schema.held values) := by
        refine ⟨tuple, hheld, fun i held hi => ?_⟩
        obtain ⟨column, value, hcolumn, hvalue, rfl⟩ := List.getElem?_zipWith_eq_some.mp hi
        exact getValue_held hrow hintegers hvalues hfits hproduces htuple hcolumn hvalue
      rw [Tuple.roundTrips_iff _ _ hfits (Tuple.accepts_held hadmits),
        Tuple.varlens_held hadmits, hvarlens] at hback
      refine ⟨(takes_iff hrow hintegers hvalues).mpr ?_, hback⟩
      intro idx info column value hinfo hcolumn hvalue
      obtain ⟨old, read, hold, hinside, hread, hnumber⟩ :=
        updated_of_isUpdated hvalues hproduces hinfo hcolumn hvalue
      cases hread.symm.trans
        (getValue_held hrow hintegers hvalues hfits hproduces htuple hcolumn hvalue)
      exact ⟨old, hold, hinside, hnumber⟩

end Values

end NewRow

/-- UPDATE makes the row that is asked for, or fails, just if a sum does not fit, or every field
that is updated takes its number and the strings of the row can be read back. -/
theorem generateUpdatedTuple_produces_iff (exec : UpdateExecutor) (srcTuple : Tuple)
    (olds : List Value) (hfits : exec.tableInfo.schema.fixedLength < 2 ^ 32)
    (hrow : (List.range exec.tableInfo.schema.columns.length).mapM
      (srcTuple.getValue exec.tableInfo.schema) = .ok olds)
    (hintegers : exec.UpdatesIntegers) :
    exec.Produces srcTuple (exec.generateUpdatedTuple srcTuple) ↔
      (∃ idx info type old,
        exec.Updates olds idx info type old ∧ info.Overflows type old.number?) ∨
      ((∀ (idx : Nat) (info : UpdateInfo) (type : IntegerType) (old : Value),
        exec.Updates olds idx info type old → info.Takes type old.number?) ∧
        NullsCovered (varlens olds) ∧
          OffsetsFit exec.tableInfo.schema.fixedLength (varlens olds)) := by
  unfold generateUpdatedTuple
  dsimp only
  by_cases hsums : ∃ idx info type old,
      exec.Updates olds idx info type old ∧ info.Overflows type old.number?
  · obtain ⟨idx, info, type, old, hupdates, hoverflows⟩ := hsums
    rw [mapM_of_overflows hrow hintegers hupdates hoverflows]
    refine iff_of_true ?_ (.inl ⟨idx, info, type, old, hupdates, hoverflows⟩)
    intro hfault
    cases hfault
  · obtain ⟨values, hvalues⟩ := exists_values hrow hintegers
      fun idx info type old hupdates hoverflows =>
        hsums ⟨idx, info, type, old, hupdates, hoverflows⟩
    rw [hvalues, or_iff_right hsums]
    constructor
    · exact takes_of_produces hrow hintegers hvalues hfits
    · rintro ⟨htakes, hcovered, hoffsets⟩
      exact produces_of_takes hrow hintegers hvalues hfits htakes hcovered hoffsets

/-- An update of a table that has one BIGINT. -/
def totalUpdate (info : UpdateInfo) : UpdateExecutor where
  plan := { tableOid := 0, updateAttrs := [(0, info)] }
  tableInfo := {
    schema := ⟨[⟨"total", .bigint, none⟩]⟩
    name := "t"
    table := { oid := 0, firstPageId := 0 }
    oid := 0 }
  indexInfoArray := []

omit [DoubleText] [DoubleArithmetic] in
theorem totalUpdate_updatesIntegers (info : UpdateInfo) : (totalUpdate info).UpdatesIntegers := by
  intro idx info' column _ hcolumn
  refine ⟨.bigint, ?_⟩
  rcases idx with _ | idx
  · cases hcolumn
    rfl
  · cases hcolumn

omit [DoubleText] [DoubleArithmetic] in
/-- The total of `5` is `6` after one is added. -/
theorem generateUpdatedTuple_produces_iff_total :
    let _ := noDoubleText
    let _ := noDoubleArithmetic
    (totalUpdate ⟨.add, 1⟩).Produces [5, 0, 0, 0, 0, 0, 0, 0]
      ((totalUpdate ⟨.add, 1⟩).generateUpdatedTuple [5, 0, 0, 0, 0, 0, 0, 0]) := by
  intro _ _
  refine (generateUpdatedTuple_produces_iff (totalUpdate ⟨.add, 1⟩) _ [.bigint 5] (by decide) rfl
    (totalUpdate_updatesIntegers _)).mpr (.inr ⟨?_, trivial, ?_⟩)
  · rintro (_ | idx) info type old ⟨hinfo, htype, hold⟩
    · cases hinfo
      cases hold
      cases type with
      | bigint =>
          intro i hi
          cases hi
          decide
      | _ => cases htype
    · cases hold
  · change 8 < 2 ^ 32
    decide

omit [DoubleText] [DoubleArithmetic] in
/-- A total that is set to `-1` is `4294967295` then: the upper half of the field stays zero. -/
theorem negativeTotal_not_produced :
    let _ := noDoubleText
    let _ := noDoubleArithmetic
    (totalUpdate ⟨.set, -1⟩).UpdatesIntegers ∧
      ((totalUpdate ⟨.set, -1⟩).generateUpdatedTuple [5, 0, 0, 0, 0, 0, 0, 0]).bind
        (fun tuple => tuple.getValue (totalUpdate ⟨.set, -1⟩).tableInfo.schema 0) =
          .ok (.bigint 4294967295) ∧
      ¬ (totalUpdate ⟨.set, -1⟩).Produces [5, 0, 0, 0, 0, 0, 0, 0]
        ((totalUpdate ⟨.set, -1⟩).generateUpdatedTuple [5, 0, 0, 0, 0, 0, 0, 0]) := by
  intro _ _
  refine ⟨totalUpdate_updatesIntegers _, rfl, ?_⟩
  have hnew : (totalUpdate ⟨.set, -1⟩).generateUpdatedTuple [5, 0, 0, 0, 0, 0, 0, 0] =
      .ok [255, 255, 255, 255, 0, 0, 0, 0] := rfl
  rw [hnew]
  intro hproduces
  obtain ⟨old, written, value, -, -, -, hread, hnumber⟩ := hproduces 0 _ rfl
  have htotal : value = .bigint 4294967295 := (Except.ok.inj hread).symm
  subst htotal
  have hnumbers : some (4294967295 : Int) = some (-1) := hnumber
  exact absurd hnumbers (by decide)

end UpdateExecutor

end BusTub
