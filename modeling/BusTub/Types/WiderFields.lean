import BusTub.Library.Faults
import BusTub.Types.TupleRoundTrip
import Mathlib.Data.List.GetD

/-! # Values in wider fields

The constructor of `Tuple` writes a value with its own width, whatever the width of its field
is. An INTEGER in the field of a BIGINT leaves four zeros behind it, so that it is read as a
number that is not negative.
-/

namespace BusTub

/-- The value that a field has when a value is written to it, as far as the field is wide
enough. -/
def Column.held (column : Column) (value : Value) : Value :=
  match column.columnType, value with
  | .bigint, .integer content => .bigint (UInt64.ofNat content.toUInt32.toNat).toInt64
  | _, value => value

/-- The value has the type of the column, or it is an INTEGER for a BIGINT. -/
def Column.Admits (column : Column) (value : Value) : Prop :=
  value.getTypeId = column.columnType ∨
    (column.columnType = .bigint ∧ value.getTypeId = .integer)

/-- The columns admit the values. -/
def Schema.Admits (schema : Schema) (values : List Value) : Prop :=
  List.Forall₂ Column.Admits schema.columns values

/-- The values that the fields have. -/
def Schema.held (schema : Schema) (values : List Value) : List Value :=
  List.zipWith Column.held schema.columns values

theorem Schema.getElem?_held {schema : Schema} {values : List Value} {i : Nat} {column : Column}
    {value : Value} (hcolumn : schema.columns[i]? = some column)
    (hvalue : values[i]? = some value) :
    (schema.held values)[i]? = some (column.held value) := by
  unfold Schema.held
  rw [List.getElem?_zipWith, hcolumn, hvalue]

namespace Column

variable {column : Column} {value : Value}

/-- A value of the type of its column stays as it is. -/
theorem held_of_type (htype : value.getTypeId = column.columnType) : column.held value = value := by
  unfold held
  split
  next hbigint =>
    rw [hbigint] at htype
    cases htype
  next => rfl

theorem Admits.getTypeId_held (h : column.Admits value) :
    (column.held value).getTypeId = column.columnType := by
  rcases h with htype | ⟨hbigint, hinteger⟩
  · rw [held_of_type htype, htype]
  · cases value with
    | integer content =>
        unfold held
        rw [hbigint]
        rfl
    | _ => cases hinteger

theorem Admits.isInlined (h : column.Admits value) :
    (value.getTypeId != .varchar) = column.isInlined := by
  unfold Column.isInlined
  rcases h with htype | ⟨hbigint, hinteger⟩
  · rw [htype]
  · rw [hbigint, hinteger]
    rfl

end Column

namespace Tuple

/-- The low half of a word of eight bytes, and zeros. -/
theorem toBytes_eight {value : Nat} (hsmall : value < 2 ^ 32) :
    toBytes 8 value = toBytes 4 value ++ [0, 0, 0, 0] := by
  have hhigh : value / 2 ^ 8 / 2 ^ 8 / 2 ^ 8 / 2 ^ 8 = 0 := by omega
  simp only [toBytes, hhigh, List.cons_append, List.nil_append]
  rfl

/-- Zeros behind the bytes that are written change nothing where there are zeros. -/
theorem write_zeros {data : Memory} {offset n : Nat} {bytes : List UInt8}
    (hzero : ∀ a, offset + bytes.length ≤ a → a < offset + bytes.length + n → data a = 0) :
    data.write offset (bytes ++ List.replicate n 0) = data.write offset bytes := by
  funext a
  unfold Memory.write
  by_cases hbytes : offset ≤ a ∧ a < offset + bytes.length
  · rw [if_pos (by rw [List.length_append]; omega), if_pos hbytes,
      List.getD_append _ _ _ _ (by omega)]
  · rw [if_neg hbytes, List.length_append, List.length_replicate]
    split
    next hbehind =>
      rw [List.getD_append_right _ _ _ _ (by omega), hzero a (by omega) (by omega),
        List.getD_eq_getElem?_getD, List.getElem?_replicate]
      split <;> rfl
    next => rfl

/-- Writing to a field of zeros is writing what the field has then. -/
theorem write_held {data : Memory} {columnOffset : Nat} {column : Column} {value : Value}
    (hzero : ∀ a, columnOffset ≤ a → a < columnOffset + column.fixedLength → data a = 0)
    (hadmits : column.Admits value) :
    data.write columnOffset value.serialize =
      data.write columnOffset (column.held value).serialize := by
  rcases hadmits with htype | ⟨hbigint, hinteger⟩
  · rw [Column.held_of_type htype]
  · cases value with
    | integer content =>
        have hfield : column.fixedLength = 8 := by
          unfold Column.fixedLength
          rw [hbigint]
          rfl
        have hword := content.toUInt32.toNat_lt
        have hheld : (column.held (.integer content)).serialize =
            (Value.integer content).serialize ++ List.replicate 4 0 := by
          unfold Column.held
          rw [hbigint]
          change toBytes 8 (UInt64.ofNat content.toUInt32.toNat).toInt64.toUInt64.toNat = _
          rw [UInt64.toUInt64_toInt64, UInt64.toNat_ofNat_of_lt' (hword.trans (by decide)),
            toBytes_eight hword]
          rfl
        rw [hheld, write_zeros]
        intro a hlow hhigh
        have hlength : (Value.integer content).serialize.length = 4 := length_toBytes _ _
        rw [hlength] at hlow hhigh
        exact hzero a (by omega) (by omega)
    | _ => cases hinteger

theorem length_serialize_le {column : Column} {value : Value} (hadmits : column.Admits value)
    (hinlined : column.isInlined = true) : value.serialize.length ≤ column.fixedLength ∧
      (column.held value).serialize.length = column.fixedLength := by
  have hvarchar : value.getTypeId ≠ .varchar := bne_iff_ne.mp (hadmits.isInlined.trans hinlined)
  have hheld : (column.held value).getTypeId ≠ .varchar := by
    rw [hadmits.getTypeId_held]
    exact bne_iff_ne.mp hinlined
  rw [length_serialize_of_inlined hvarchar, length_serialize_of_inlined hheld,
    hadmits.getTypeId_held]
  refine ⟨?_, rfl⟩
  unfold Column.fixedLength
  rcases hadmits with htype | ⟨hbigint, hinteger⟩
  · rw [htype]
  · rw [hbigint, hinteger]
    decide

/-- A value of the shape of a column that is not inlined is a string. -/
theorem exists_content_of_shape {column : Column} {value : Value}
    (hshape : (value.getTypeId != .varchar) = column.isInlined)
    (hstring : ¬ column.isInlined = true) : ∃ content, value = .varchar content := by
  rw [← hshape] at hstring
  exact exists_content (by simpa using hstring)

/-- The loop writes what the fields have then, as long as the columns that are left are zero. -/
theorem serializeColumns_held {size columnOffset offset : Nat} {columns : List Column}
    {values : List Value} {data : Memory} (hadmits : List.Forall₂ Column.Admits columns values)
    (hfixed : columnOffset + fixedSum columns ≤ offset)
    (hroom : columnOffset + fixedSum columns ≤ size) (hsize : size < 2 ^ 32)
    (hzero : ∀ a, columnOffset ≤ a → a < columnOffset + fixedSum columns → data a = 0) :
    serializeColumns size offset data ((Schema.placeFrom columnOffset columns).zip values) =
      serializeColumns size offset data ((Schema.placeFrom columnOffset columns).zip
        (List.zipWith Column.held columns values)) := by
  induction hadmits generalizing columnOffset offset data with
  | nil => rfl
  | @cons column value columns values hhead hrest ih =>
      rw [fixedSum_cons] at hfixed hroom hzero
      rw [Schema.placeFrom, List.zipWith_cons_cons, List.zip_cons_cons, List.zip_cons_cons]
      have hnext : toUInt32 (columnOffset + column.fixedLength) =
          columnOffset + column.fixedLength := Nat.mod_eq_of_lt (by omega)
      rw [hnext]
      cases hinlined : column.isInlined with
      | true =>
          obtain ⟨hle, hlength⟩ := length_serialize_le hhead hinlined
          have hwrite := write_held (fun a hlow hhigh => hzero a hlow (by omega)) hhead
          rw [serializeColumns, serializeColumns, if_pos hinlined, if_pos hinlined]
          unfold store
          rw [if_pos (by omega), if_pos (by omega), hwrite]
          simp only [bind, Except.bind]
          apply ih (by omega) (by omega)
          intro a hlow hhigh
          rw [Memory.write_outside (by omega)]
          exact hzero a (by omega) (by omega)
      | false =>
          obtain ⟨content, rfl⟩ := exists_content_of_shape hhead.isInlined (by simp [hinlined])
          have hcolumn : column.columnType = .varchar := by
            unfold Column.isInlined at hinlined
            simpa using hinlined
          have hsame : column.held (.varchar content) = .varchar content :=
            Column.held_of_type hcolumn.symm
          rw [hsame]
          obtain ⟨length, hlen⟩ := getLength_varchar content
          have hword : (toBytes 4 offset).length = 4 := length_toBytes _ _
          have hfield : column.fixedLength = 12 := by
            unfold Column.fixedLength
            rw [hcolumn]
            rfl
          rw [serializeColumns, serializeColumns, if_neg (by simp [hinlined]),
            if_neg (by simp [hinlined]), hlen]
          unfold store
          rw [if_pos (by omega)]
          simp only [bind, Except.bind]
          split
          · rfl
          next hdata =>
            split at hdata
            next hfits =>
              -- a string that fits does not let the offset wrap around
              cases hdata
              have hcounted := countedSize_le content
              rw [toUInt32_add_length hlen (by omega)]
              apply ih (by omega) (by omega)
              intro a hlow hhigh
              rw [Memory.write_outside (by omega), Memory.write_outside (by omega)]
              exact hzero a (by omega) (by omega)
            · cases hdata

/-! ## Tuples -/

variable {schema : Schema} {values : List Value} {tuple : Tuple}

/-- The values that are not strings do not matter for the strings. -/
theorem varlens_congr {olds : List Value}
    (h : List.Forall₂ (fun old value => value = old ∨
      (old.getTypeId ≠ .varchar ∧ value.getTypeId ≠ .varchar)) olds values) :
    varlens values = varlens olds := by
  induction h with
  | nil => rfl
  | @cons old value _ _ hhead hrest ih =>
      rcases hhead with rfl | ⟨hold, hvalue⟩
      · unfold varlens at ih ⊢
        rw [List.filterMap_cons, List.filterMap_cons, ih]
      · rw [varlens_cons_of_inlined hold, varlens_cons_of_inlined hvalue, ih]

theorem accepts_held (hadmits : schema.Admits values) : schema.Accepts (schema.held values) := by
  unfold Schema.Accepts Schema.held
  unfold Schema.Admits at hadmits
  generalize schema.columns = columns at hadmits
  induction hadmits with
  | nil => rfl
  | cons hhead hrest ih =>
      rw [List.zipWith_cons_cons, List.map_cons, List.map_cons, hhead.getTypeId_held, ih]

theorem shaped_of_admits (hadmits : schema.Admits values) : Shaped schema.columns values := by
  unfold Schema.Admits at hadmits
  unfold Shaped
  generalize schema.columns = columns at hadmits
  induction hadmits with
  | nil => rfl
  | cons hhead hrest ih => rw [List.map_cons, List.map_cons, hhead.isInlined, ih]

theorem varlens_held (hadmits : schema.Admits values) :
    varlens (schema.held values) = varlens values := by
  apply varlens_congr
  unfold Schema.held
  unfold Schema.Admits at hadmits
  generalize schema.columns = columns at hadmits
  induction hadmits with
  | nil => exact .nil
  | @cons column value _ _ hhead hrest ih =>
      rw [List.zipWith_cons_cons]
      refine .cons ?_ ih
      rcases hhead with htype | ⟨hbigint, hinteger⟩
      · exact .inl (Column.held_of_type htype)
      · right
        rw [Column.Admits.getTypeId_held (.inr ⟨hbigint, hinteger⟩), hbigint, hinteger]
        decide

/-- A tuple of values that the columns admit is that of the values that the fields have. -/
theorem ofValues_held (hfits : schema.fixedLength < 2 ^ 32) (hadmits : schema.Admits values)
    (hsmall : schema.fixedLength + countedSum (varlens values) < 2 ^ 32) :
    ofValues values schema = ofValues (schema.held values) schema := by
  have hlengths : values.length = schema.columns.length := hadmits.length_eq.symm
  have hheld : (schema.held values).length = schema.columns.length := by
    unfold Schema.held
    rw [List.length_zipWith, hlengths, Nat.min_self]
  have hshape := shaped_of_types (accepts_held hadmits)
  have hsize : tupleSize schema.fixedLength (schema.placed.zip values) =
      .ok (schema.fixedLength + countedSum (varlens values)) :=
    tupleSize_eq (shaped_of_admits hadmits) hsmall
  have hsizeHeld : tupleSize schema.fixedLength (schema.placed.zip (schema.held values)) =
      .ok (schema.fixedLength + countedSum (varlens values)) := by
    rw [← varlens_held hadmits] at hsmall ⊢
    exact tupleSize_eq hshape hsmall
  have hdata : serializeColumns (schema.fixedLength + countedSum (varlens values))
      schema.fixedLength Memory.zeros (schema.placed.zip values) =
        serializeColumns (schema.fixedLength + countedSum (varlens values))
          schema.fixedLength Memory.zeros (schema.placed.zip (schema.held values)) := by
    have hsum : 0 + fixedSum schema.columns = schema.fixedLength := Nat.zero_add _
    exact serializeColumns_held hadmits hsum.le (by omega) hsmall fun _ _ _ => rfl
  unfold ofValues
  rw [if_neg (not_not.mpr hlengths), if_neg (not_not.mpr hheld), length_eq hfits, hsize,
    hsizeHeld]
  simp only [bind, Except.bind, hdata]

/-- The constructor fails only by writing beyond the tuple. -/
theorem serializeColumns_error {size columnOffset offset : Nat} {columns : List Column}
    {data : Memory} {fault : EvalFault} (hshape : Shaped columns values)
    (hfault : serializeColumns size offset data
      ((Schema.placeFrom columnOffset columns).zip values) = .error fault) :
    fault = .outOfBounds := by
  induction columns generalizing columnOffset offset data values with
  | nil => cases hfault
  | cons column columns ih =>
      cases values with
      | nil => cases hshape
      | cons value values =>
          obtain ⟨hinline, hshapes⟩ := List.cons.inj hshape
          rw [Schema.placeFrom, List.zip_cons_cons, serializeColumns] at hfault
          unfold store at hfault
          split at hfault
          · split at hfault
            · exact ih hshapes hfault
            · cases hfault
              rfl
          next hstring =>
            obtain ⟨content, rfl⟩ := exists_content_of_shape hinline hstring
            obtain ⟨length, hlength⟩ := getLength_varchar content
            rw [hlength] at hfault
            split at hfault
            · simp only [bind, Except.bind] at hfault
              split at hfault
              next hdata =>
                split at hdata
                · cases hdata
                · cases hdata
                  cases hfault
                  rfl
              · exact ih hshapes hfault
            · cases hfault
              rfl

theorem exists_tupleSize {columnOffset size : Nat} {columns : List Column}
    (hshape : Shaped columns values) : ∃ total,
      tupleSize size ((Schema.placeFrom columnOffset columns).zip values) = .ok total := by
  induction columns generalizing columnOffset size values with
  | nil => exact ⟨size, rfl⟩
  | cons column columns ih =>
      cases values with
      | nil => cases hshape
      | cons value values =>
          obtain ⟨hinline, hshapes⟩ := List.cons.inj hshape
          rw [Schema.placeFrom, List.zip_cons_cons, tupleSize]
          split
          · exact ih hshapes
          next hstring =>
            obtain ⟨content, rfl⟩ := exists_content_of_shape hinline hstring
            obtain ⟨length, hlength⟩ := getLength_varchar content
            rw [hlength]
            exact ih hshapes

theorem ofValues_error {fault : EvalFault} (hshape : Shaped schema.columns values)
    (hfault : ofValues values schema = .error fault) : fault = .outOfBounds := by
  have hlength : values.length = schema.columns.length := by
    have hmap := congrArg List.length hshape
    rwa [List.length_map, List.length_map] at hmap
  obtain ⟨size, hsize⟩ : ∃ size,
      tupleSize schema.length (schema.placed.zip values) = .ok size := exists_tupleSize hshape
  unfold ofValues at hfault
  rw [if_neg (not_not.mpr hlength), hsize] at hfault
  simp only [bind, Except.bind] at hfault
  split at hfault
  next fault' hdata =>
    cases hfault
    exact serializeColumns_error hshape hdata
  · cases hfault

/-- A finished tuple has room for its strings. -/
theorem countedSum_lt_of_ok (hfits : schema.fixedLength < 2 ^ 32)
    (hshape : Shaped schema.columns values)
    (hok : ofValues values schema = .ok tuple) :
    schema.fixedLength + countedSum (varlens values) < 2 ^ 32 := by
  unfold ofValues at hok
  rw [length_eq hfits] at hok
  split at hok
  · cases hok
  obtain ⟨size, hsize, hrest⟩ := Except.bind_eq_ok_iff.mp hok
  obtain ⟨data, hdata, -⟩ := Except.bind_eq_ok_iff.mp hrest
  exact countedSum_lt hshape (tupleSize_lt hfits hsize) hfits hdata

/-- The columns of stored values that are not strings read back as their values. -/
theorem readColumn_of_stored {m : Memory} {size columnOffset offset : Nat} {columns : List Column}
    (htypes : values.map Value.getTypeId = columns.map Column.columnType)
    (hstored : Stored m size offset ((Schema.placeFrom columnOffset columns).zip values))
    {i : Nat} {value : Value} (hvalue : values[i]? = some value)
    (hinlined : value.getTypeId ≠ .varchar) :
    ∃ place : Nat × Column, (Schema.placeFrom columnOffset columns)[i]? = some place ∧
      readColumn (m.read 0 size) place.1 place.2 = .ok value := by
  induction columns generalizing columnOffset offset values i with
  | nil =>
      rw [List.map_nil, List.map_eq_nil_iff] at htypes
      subst htypes
      simp at hvalue
  | cons column columns ih =>
      cases values with
      | nil => cases htypes
      | cons first values =>
          rw [List.map_cons, List.map_cons, List.cons.injEq] at htypes
          obtain ⟨htype, htypes⟩ := htypes
          rw [Schema.placeFrom, List.zip_cons_cons] at hstored
          rw [Schema.placeFrom]
          cases i with
          | zero =>
              cases hvalue
              rw [stored_cons_of_inlined hinlined] at hstored
              exact ⟨_, rfl, readColumn_inlined htype hinlined hstored.1 hstored.2.1⟩
          | succ i =>
              rw [List.getElem?_cons_succ] at hvalue ⊢
              by_cases hstring : first.getTypeId = .varchar
              · obtain ⟨content, rfl⟩ := exists_content hstring
                exact ih htypes hstored.2.2.2 hvalue
              · rw [stored_cons_of_inlined hstring] at hstored
                exact ih htypes hstored.2.2 hvalue

/-- A tuple gives back its values that are not strings. -/
theorem getValue_of_inlined (hfits : schema.fixedLength < 2 ^ 32)
    (haccepts : schema.Accepts values) (hok : ofValues values schema = .ok tuple) {i : Nat}
    {value : Value} (hvalue : values[i]? = some value) (hinlined : value.getTypeId ≠ .varchar) :
    tuple.getValue schema i = .ok value := by
  obtain ⟨-, m, rfl, hstored⟩ := ofValues_ok hfits haccepts hok
  obtain ⟨place, hplace, hread⟩ := readColumn_of_stored haccepts hstored hvalue hinlined
  rw [getValue_eq hplace, hread]

end Tuple

end BusTub
