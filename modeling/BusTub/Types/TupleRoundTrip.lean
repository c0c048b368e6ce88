import BusTub.Types.TupleCodec

/-! # Tuples that can be read back

A tuple gives back the values it is built from unless one of them is a NULL `VARCHAR`
that is not covered: the size of a tuple counts three bytes for it, and `SerializeTo`
writes four. The fourth is outside of the tuple, or the first byte of the next
`VARCHAR`, which happens to be the same only for some lengths.
-/

namespace BusTub

/-- The content of a `VARCHAR`. -/
def Value.varlen? : Value → Option (Option Varlen)
  | .varchar value => some value
  | _ => none

/-- The bytes that the size of a tuple counts for a `VARCHAR`. -/
def countedSize : Option Varlen → Nat
  | none => 3
  | some value => value.data.length + 4

/-- The values of the `VARCHAR` columns. -/
def varlens (values : List Value) : List (Option Varlen) := values.filterMap Value.varlen?

/-- Every NULL is followed by a NULL or by a length whose lowest byte is `0xFF`. -/
def NullsCovered : List (Option Varlen) → Prop
  | [] => True
  | some _ :: rest => NullsCovered rest
  | [none] => False
  | none :: none :: rest => NullsCovered (none :: rest)
  | none :: some value :: rest => value.data.length % 2 ^ 8 = 255 ∧ NullsCovered (some value :: rest)

theorem NullsCovered.tail {value : Option Varlen} {rest : List (Option Varlen)}
    (h : NullsCovered (value :: rest)) : NullsCovered rest := by
  cases value with
  | some value => exact h
  | none =>
      cases rest with
      | nil => trivial
      | cons next rest =>
          cases next with
          | none => exact h
          | some value => exact h.2

/-- Every value starts where a signed number reaches, and the end fits 32 bits. -/
def OffsetsFit : Nat → List (Option Varlen) → Prop
  | offset, [] => offset < 2 ^ 32
  | offset, value :: rest => offset < 2 ^ 31 ∧ OffsetsFit (offset + countedSize value) rest

/-- The values have the types of the columns. -/
def Schema.Accepts (schema : Schema) (values : List Value) : Prop :=
  values.map Value.getTypeId = schema.columns.map Column.columnType

namespace Tuple

/-- The constructor stays inside the tuple, and every value can be read back. -/
def RoundTrips (schema : Schema) (values : List Value) : Prop :=
  ∃ tuple, ofValues values schema = .ok tuple ∧
    ∀ (i : Nat) (value : Value), values[i]? = some value → tuple.getValue schema i = .ok value

/-! ## Slices -/

theorem slice_read (m : Memory) {size offset n : Nat} (hfits : offset + n ≤ size) :
    slice (m.read 0 size) offset n = .ok (m.read offset n) := by
  unfold slice
  rw [if_pos (by rwa [Memory.length_read])]
  congr 1
  refine List.ext_getElem (by simp; omega) fun i hi hi' => ?_
  simp [Memory.read]

/-! ## Single values -/

theorem exists_content {value : Value} (htype : value.getTypeId = .varchar) :
    ∃ content, value = .varchar content := by
  cases value with
  | varchar content => exact ⟨content, rfl⟩
  | _ => cases htype

theorem length_serialize_of_inlined {value : Value} (hinlined : value.getTypeId ≠ .varchar) :
    value.serialize.length = typeSize value.getTypeId := by
  cases value with
  | varchar value => exact absurd rfl hinlined
  | boolean value => exact length_toBytes _ _
  | tinyint value => exact length_toBytes _ _
  | smallint value => exact length_toBytes _ _
  | integer value => exact length_toBytes _ _
  | bigint value => exact length_toBytes _ _
  | decimal value => exact length_toBytes _ _

/-- The bytes of an inlined value are read as the value. -/
theorem deserialize_of_inlined {tuple : Tuple} {offset : Nat} {value : Value}
    (hinlined : value.getTypeId ≠ .varchar)
    (hslice : tuple.slice offset value.serialize.length = .ok value.serialize) :
    tuple.deserialize offset value.getTypeId = .ok value := by
  rw [length_serialize_of_inlined hinlined] at hslice
  cases value with
  | varchar value => exact absurd rfl hinlined
  | boolean value =>
      simp only [Value.getTypeId, typeSize, Value.serialize] at hslice ⊢
      simp only [deserialize, hslice, bind, Except.bind]
      rw [ofBytes_toBytes_of_lt value.toUInt8.toNat_lt, UInt8.ofNat_toNat, Int8.toInt8_toUInt8]
  | tinyint value =>
      simp only [Value.getTypeId, typeSize, Value.serialize] at hslice ⊢
      simp only [deserialize, hslice, bind, Except.bind]
      rw [ofBytes_toBytes_of_lt value.toUInt8.toNat_lt, UInt8.ofNat_toNat, Int8.toInt8_toUInt8]
  | smallint value =>
      simp only [Value.getTypeId, typeSize, Value.serialize] at hslice ⊢
      simp only [deserialize, hslice, bind, Except.bind]
      rw [ofBytes_toBytes_of_lt value.toUInt16.toNat_lt, UInt16.ofNat_toNat,
        Int16.toInt16_toUInt16]
  | integer value =>
      simp only [Value.getTypeId, typeSize, Value.serialize] at hslice ⊢
      simp only [deserialize, hslice, bind, Except.bind]
      rw [ofBytes_toBytes_of_lt value.toUInt32.toNat_lt, UInt32.ofNat_toNat,
        Int32.toInt32_toUInt32]
  | bigint value =>
      simp only [Value.getTypeId, typeSize, Value.serialize] at hslice ⊢
      simp only [deserialize, hslice, bind, Except.bind]
      rw [ofBytes_toBytes_of_lt value.toUInt64.toNat_lt, UInt64.ofNat_toNat,
        Int64.toInt64_toUInt64]
  | decimal value =>
      simp only [Value.getTypeId, typeSize, Value.serialize] at hslice ⊢
      simp only [deserialize, hslice, bind, Except.bind]
      rw [ofBytes_toBytes_of_lt value.toNat_lt, UInt64.ofNat_toNat]

theorem length_serialize_varchar_some (value : Varlen) :
    (Value.varchar (some value)).serialize.length = 4 + value.data.length := by
  simp only [Value.serialize, List.length_append, length_toBytes]

/-- The bytes of a `VARCHAR` are read as the value. -/
theorem deserialize_varchar_some {m : Memory} {size offset : Nat} {value : Varlen}
    (hfits : offset + (4 + value.data.length) ≤ size)
    (hread : m.read offset (4 + value.data.length) = (Value.varchar (some value)).serialize) :
    deserialize (m.read 0 size) offset .varchar = .ok (.varchar (some value)) := by
  have hlen := value.fits
  unfold valueNull at hlen
  rw [Memory.read_add, Value.serialize] at hread
  obtain ⟨hhead, htail⟩ := List.append_inj hread (by simp)
  have hslice : slice (m.read 0 size) offset 4 = .ok (m.read offset 4) := slice_read m (by omega)
  have hdata : slice (m.read 0 size) (offset + 4) value.data.length =
      .ok (m.read (offset + 4) value.data.length) := slice_read m (by omega)
  rw [hhead] at hslice
  rw [htail] at hdata
  simp only [deserialize, hslice, bind, Except.bind]
  rw [ofBytes_toBytes_of_lt (by omega), if_neg (by unfold valueNull; omega), hdata]
  simp only [dif_pos value.fits]

/-- Four bytes are read as NULL if and only if all of them are `0xFF`. -/
theorem deserialize_eq_null_iff {m : Memory} {size offset : Nat} (hfits : offset + 4 ≤ size)
    (hread : m.read offset 3 = [255, 255, 255]) :
    deserialize (m.read 0 size) offset .varchar = .ok (.varchar none) ↔ m (offset + 3) = 255 := by
  have hslice := slice_read m hfits
  have hbytes : m.read offset 4 = [255, 255, 255, m (offset + 3)] := by
    rw [Memory.read_add m offset 3 1, hread]
    rfl
  have hvalue : ofBytes (m.read offset 4) = 2 ^ 24 - 1 + 2 ^ 24 * (m (offset + 3)).toNat := by
    rw [hbytes]
    simp only [ofBytes, UInt8.toNat_ofNat]
    omega
  have hnull : ofBytes (m.read offset 4) = valueNull ↔ m (offset + 3) = 255 := by
    rw [hvalue, ← UInt8.toNat_inj]
    unfold valueNull
    change _ ↔ _ = 255
    omega
  simp only [deserialize, hslice, bind, Except.bind]
  rw [← hnull]
  by_cases hlen : ofBytes (m.read offset 4) = valueNull
  · exact iff_of_true (if_pos hlen) hlen
  · rw [if_neg hlen]
    refine iff_of_false ?_ hlen
    split
    · simp
    · split <;> simp

/-! ## Serialized columns -/

/-- A column of a schema with its offset, and its value. -/
abbrev Entry : Type := (Nat × Column) × Value

/-- The memory holds a `VARCHAR` at an offset; of a NULL only three bytes are sure. -/
def VarlenStored (m : Memory) (size offset : Nat) : Option Varlen → Prop
  | none => offset + 4 ≤ size ∧ m.read offset 3 = [255, 255, 255]
  | some value => offset + (4 + value.data.length) ≤ size ∧
      m.read offset (4 + value.data.length) = (Value.varchar (some value)).serialize

/-- The memory holds the values that the loop has written, from an offset on for the
`VARCHAR` values. -/
def Stored (m : Memory) (size : Nat) : Nat → List Entry → Prop
  | _, [] => True
  | offset, ((columnOffset, _), .varchar value) :: rest =>
      columnOffset + 4 ≤ size ∧ m.read columnOffset 4 = toBytes 4 offset ∧
        VarlenStored m size offset value ∧ Stored m size (offset + countedSize value) rest
  | offset, ((columnOffset, _), value) :: rest =>
      columnOffset + value.serialize.length ≤ size ∧
        m.read columnOffset value.serialize.length = value.serialize ∧ Stored m size offset rest

/-- The bytes counted for all `VARCHAR` values. -/
def countedSum (values : List (Option Varlen)) : Nat := (values.map countedSize).sum

@[simp] theorem countedSum_nil : countedSum [] = 0 := rfl

@[simp] theorem countedSum_cons (value : Option Varlen) (rest : List (Option Varlen)) :
    countedSum (value :: rest) = countedSize value + countedSum rest := by
  simp [countedSum]

@[simp] theorem countedSize_none : countedSize none = 3 := rfl

@[simp] theorem countedSize_some (value : Varlen) :
    countedSize (some value) = value.data.length + 4 := rfl

/-- What the loop adds to the offset of a `VARCHAR`, if the sum fits 32 bits. -/
theorem toUInt32_add_length {offset length : Nat} {value : Option Varlen}
    (hlength : (Value.varchar value).getLength = .ok length)
    (hfits : offset + countedSize value < 2 ^ 32) :
    toUInt32 (offset + (length + 4)) = offset + countedSize value := by
  unfold toUInt32
  cases value with
  | none =>
      cases hlength
      rw [countedSize_none] at hfits ⊢
      unfold valueNull
      omega
  | some value =>
      cases hlength
      exact Nat.mod_eq_of_lt hfits

theorem getLength_varchar (value : Option Varlen) :
    ∃ length, (Value.varchar value).getLength = .ok length := by
  cases value with
  | none => exact ⟨_, rfl⟩
  | some value => exact ⟨_, rfl⟩

/-- A `VARCHAR` takes at least the bytes that are counted for it. -/
theorem countedSize_le (value : Option Varlen) :
    countedSize value ≤ (Value.varchar value).serialize.length := by
  cases value with
  | none => exact Nat.le_succ 3
  | some value =>
      rw [length_serialize_varchar_some, countedSize_some, Nat.add_comm]

/-- What is stored depends on the bytes of the columns and from the offset on. -/
theorem VarlenStored.of_write {m : Memory} {size offset : Nat} (value : Option Varlen)
    (hfits : offset + (Value.varchar value).serialize.length ≤ size)
    {m' : Memory} (hsame : ∀ a, offset ≤ a → a < offset + countedSize value →
      m' a = m.write offset (Value.varchar value).serialize a) :
    VarlenStored m' size offset value := by
  cases value with
  | none =>
      have hwrite := Memory.read_write_self m offset (Value.varchar none).serialize
      have hbytes : (Value.varchar none).serialize = [255, 255, 255] ++ [255] := by decide
      have hlength : (Value.varchar none).serialize.length = 3 + 1 := rfl
      rw [hlength, Memory.read_add] at hwrite
      nth_rewrite 3 [hbytes] at hwrite
      have hthree := (List.append_inj hwrite (Memory.length_read _ _ _)).1
      refine ⟨hfits, ?_⟩
      rw [← hthree]
      exact Memory.read_congr fun i hi => hsame _ (by omega) (by rw [countedSize_none]; omega)
  | some value =>
      rw [length_serialize_varchar_some] at hfits
      refine ⟨hfits, ?_⟩
      have hwrite := Memory.read_write_self m offset (Value.varchar (some value)).serialize
      rw [length_serialize_varchar_some] at hwrite
      rw [← hwrite]
      exact Memory.read_congr fun i hi => hsame _ (by omega) (by rw [countedSize_some]; omega)

theorem stored_cons_of_inlined {m : Memory} {size offset columnOffset : Nat} {column : Column}
    {value : Value} {rest : List Entry} (hinlined : value.getTypeId ≠ .varchar) :
    Stored m size offset (((columnOffset, column), value) :: rest) ↔
      columnOffset + value.serialize.length ≤ size ∧
        m.read columnOffset value.serialize.length = value.serialize ∧
        Stored m size offset rest := by
  cases value with
  | varchar value => exact absurd rfl hinlined
  | _ => exact Iff.rfl

theorem varlens_cons_of_inlined {value : Value} (hinlined : value.getTypeId ≠ .varchar)
    (rest : List Value) : varlens (value :: rest) = varlens rest := by
  cases value with
  | varchar value => exact absurd rfl hinlined
  | _ => rfl

/-- One turn of the loop, for an inlined column. -/
theorem serializeColumns_inlined {size offset columnOffset : Nat} {data data' : Memory}
    {column : Column} {value : Value} {rest : List Entry} (hinlined : column.isInlined = true) :
    serializeColumns size offset data (((columnOffset, column), value) :: rest) = .ok data' ↔
      columnOffset + value.serialize.length ≤ size ∧
        serializeColumns size offset (data.write columnOffset value.serialize) rest =
          .ok data' := by
  rw [serializeColumns, if_pos hinlined]
  unfold store
  by_cases hfits : columnOffset + value.serialize.length ≤ size
  · rw [if_pos hfits]
    exact ⟨fun h => ⟨hfits, h⟩, fun h => h.2⟩
  · rw [if_neg hfits]
    exact ⟨nofun, fun h => absurd h.1 hfits⟩

/-- One turn of the loop, for a `VARCHAR`. -/
theorem serializeColumns_varchar {size offset columnOffset length : Nat} {data data' : Memory}
    {column : Column} {value : Value} {rest : List Entry} (hinlined : column.isInlined = false)
    (hlength : value.getLength = .ok length) :
    serializeColumns size offset data (((columnOffset, column), value) :: rest) = .ok data' ↔
      columnOffset + 4 ≤ size ∧ offset + value.serialize.length ≤ size ∧
        serializeColumns size (toUInt32 (offset + (length + 4)))
          ((data.write columnOffset (toBytes 4 offset)).write offset value.serialize) rest =
            .ok data' := by
  have hword : (toBytes 4 offset).length = 4 := length_toBytes _ _
  rw [serializeColumns, if_neg (by simp [hinlined]), hlength]
  unfold store
  rw [hword]
  by_cases hcolumn : columnOffset + 4 ≤ size
  · rw [if_pos hcolumn]
    by_cases hfits : offset + value.serialize.length ≤ size
    · simp only [bind, Except.bind, if_pos hfits]
      exact ⟨fun h => ⟨hcolumn, hfits, h⟩, fun h => h.2.2⟩
    · simp only [bind, Except.bind, if_neg hfits]
      exact ⟨nofun, fun h => absurd h.2.1 hfits⟩
  · rw [if_neg hcolumn]
    exact ⟨nofun, fun h => absurd h.1 hcolumn⟩

theorem isInlined_eq_true {column : Column} {value : Value}
    (htype : value.getTypeId = column.columnType) (hinlined : value.getTypeId ≠ .varchar) :
    column.isInlined = true := by
  unfold Column.isInlined
  rw [← htype]
  simpa using hinlined

theorem isInlined_eq_false {column : Column} {value : Option Varlen}
    (htype : (Value.varchar value).getTypeId = column.columnType) : column.isInlined = false := by
  unfold Column.isInlined
  rw [← htype]
  rfl

/-- The sum of the column lengths. -/
def fixedSum (columns : List Column) : Nat := (columns.map Column.fixedLength).sum

@[simp] theorem fixedSum_cons (column : Column) (rest : List Column) :
    fixedSum (column :: rest) = column.fixedLength + fixedSum rest := by
  simp [fixedSum]

/-- The loop writes to the columns and from the offset on, and what it writes stays. -/
theorem serializeColumns_stored {size columnOffset offset : Nat} {columns : List Column}
    {values : List Value} {data data' : Memory}
    (htypes : values.map Value.getTypeId = columns.map Column.columnType)
    (hfixed : columnOffset + fixedSum columns ≤ offset)
    (hsmall : offset + countedSum (varlens values) < 2 ^ 32)
    (hok : serializeColumns size offset data
      ((Schema.placeFrom columnOffset columns).zip values) = .ok data') :
    (∀ a, a < columnOffset ∨ (columnOffset + fixedSum columns ≤ a ∧ a < offset) →
      data' a = data a) ∧
    Stored data' size offset ((Schema.placeFrom columnOffset columns).zip values) := by
  induction columns generalizing columnOffset offset values data with
  | nil =>
      cases hok
      exact ⟨fun a _ => rfl, trivial⟩
  | cons column columns ih =>
      cases values with
      | nil => cases htypes
      | cons value values =>
          rw [List.map_cons, List.map_cons, List.cons.injEq] at htypes
          obtain ⟨htype, htypes⟩ := htypes
          rw [fixedSum_cons] at hfixed
          rw [Schema.placeFrom, List.zip_cons_cons] at hok ⊢
          have hnext : toUInt32 (columnOffset + column.fixedLength) =
              columnOffset + column.fixedLength := Nat.mod_eq_of_lt (by omega)
          rw [hnext] at hok ⊢
          by_cases hinlined : value.getTypeId = .varchar
          · obtain ⟨content, rfl⟩ := exists_content hinlined
            have hwidth : column.fixedLength = 12 := by
              unfold Column.fixedLength
              rw [← htype]
              rfl
            obtain ⟨length, hlength⟩ := getLength_varchar content
            have hsum : varlens (.varchar content :: values) = content :: varlens values := rfl
            rw [hsum, countedSum_cons] at hsmall
            rw [serializeColumns_varchar (isInlined_eq_false htype) hlength,
              toUInt32_add_length hlength (by omega)] at hok
            obtain ⟨hcolumn, hfits, hrest⟩ := hok
            obtain ⟨hframe, hstored⟩ := ih htypes (by omega) (by omega) hrest
            have hcounted := countedSize_le content
            have hword : (toBytes 4 offset).length = 4 := length_toBytes _ _
            refine ⟨?_, hcolumn, ?_, ?_, hstored⟩
            · intro a ha
              rw [fixedSum_cons] at ha
              rw [hframe a (by omega), Memory.write_outside (by omega),
                Memory.write_outside (by omega)]
            · have hself := Memory.read_write_self data columnOffset (toBytes 4 offset)
              rw [hword] at hself
              rw [← hself]
              refine Memory.read_congr fun i hi => ?_
              rw [hframe _ (by omega), Memory.write_outside (by omega)]
            · exact VarlenStored.of_write content hfits fun a hlow hhigh => hframe a (by omega)
          · have hwidth : value.serialize.length = column.fixedLength := by
              rw [length_serialize_of_inlined hinlined, htype]
              rfl
            rw [varlens_cons_of_inlined hinlined] at hsmall
            rw [serializeColumns_inlined (isInlined_eq_true htype hinlined)] at hok
            obtain ⟨hfits, hrest⟩ := hok
            obtain ⟨hframe, hstored⟩ := ih htypes (by omega) hsmall hrest
            refine ⟨?_, (stored_cons_of_inlined hinlined).mpr ⟨hfits, ?_, hstored⟩⟩
            · intro a ha
              rw [fixedSum_cons] at ha
              rw [hframe a (by omega), Memory.write_outside (by omega)]
            · have hself := Memory.read_write_self data columnOffset value.serialize
              exact (Memory.read_congr fun i hi => hframe _ (by omega)).trans hself

/-- The loop stays inside the tuple if no NULL is the last `VARCHAR`. -/
theorem serializeColumns_isOk {size columnOffset offset : Nat} {columns : List Column}
    {values : List Value} {data : Memory}
    (htypes : values.map Value.getTypeId = columns.map Column.columnType)
    (hfixed : columnOffset + fixedSum columns ≤ offset)
    (hsmall : offset + countedSum (varlens values) < 2 ^ 32)
    (hsize : offset + countedSum (varlens values) ≤ size)
    (hcovered : NullsCovered (varlens values)) :
    ∃ data', serializeColumns size offset data
      ((Schema.placeFrom columnOffset columns).zip values) = .ok data' := by
  induction columns generalizing columnOffset offset values data with
  | nil => exact ⟨data, rfl⟩
  | cons column columns ih =>
      cases values with
      | nil => cases htypes
      | cons value values =>
          rw [List.map_cons, List.map_cons, List.cons.injEq] at htypes
          obtain ⟨htype, htypes⟩ := htypes
          rw [fixedSum_cons] at hfixed
          rw [Schema.placeFrom, List.zip_cons_cons]
          have hnext : toUInt32 (columnOffset + column.fixedLength) =
              columnOffset + column.fixedLength := Nat.mod_eq_of_lt (by omega)
          rw [hnext]
          by_cases hinlined : value.getTypeId = .varchar
          · obtain ⟨content, rfl⟩ := exists_content hinlined
            have hwidth : column.fixedLength = 12 := by
              unfold Column.fixedLength
              rw [← htype]
              rfl
            obtain ⟨length, hlength⟩ := getLength_varchar content
            have hsum : varlens (.varchar content :: values) = content :: varlens values := rfl
            rw [hsum, countedSum_cons] at hsmall hsize
            rw [hsum] at hcovered
            have hfixed' : columnOffset + column.fixedLength + fixedSum columns ≤
                offset + countedSize content := by omega
            obtain ⟨data', hrest⟩ := ih htypes hfixed' (by omega) (by omega) hcovered.tail
            refine ⟨data', ?_⟩
            rw [serializeColumns_varchar (isInlined_eq_false htype) hlength,
              toUInt32_add_length hlength (by omega)]
            refine ⟨by omega, ?_, hrest⟩
            cases content with
            | some content =>
                rw [length_serialize_varchar_some]
                rw [countedSize_some] at hsize
                omega
            | none =>
                -- a null string writes its length and counts for nothing, so that a counted one
                -- has to follow
                change offset + 4 ≤ size
                rw [countedSize_none] at hsize
                cases htail : varlens values with
                | nil =>
                    rw [htail] at hcovered
                    exact absurd hcovered id
                | cons next rest =>
                    rw [htail, countedSum_cons] at hsize
                    have hpos : 0 < countedSize next := by
                      cases next <;> simp
                    omega
          · have hwidth : value.serialize.length = column.fixedLength := by
              rw [length_serialize_of_inlined hinlined, htype]
              rfl
            rw [varlens_cons_of_inlined hinlined] at hsmall hsize hcovered
            have hfixed' : columnOffset + column.fixedLength + fixedSum columns ≤ offset := by
              omega
            obtain ⟨data', hrest⟩ := ih htypes hfixed' hsmall hsize hcovered
            refine ⟨data', ?_⟩
            rw [serializeColumns_inlined (isInlined_eq_true htype hinlined)]
            exact ⟨by omega, hrest⟩

/-! ## Reading back -/

/-- The value of a column, read from memory. -/
def readColumn (tuple : Tuple) (columnOffset : Nat) (column : Column) : Except EvalFault Value := do
  let dataPtr ← tuple.getDataPtr columnOffset column
  tuple.deserialize dataPtr column.columnType

theorem getValue_eq {tuple : Tuple} {schema : Schema} {i columnOffset : Nat} {column : Column}
    (hplaced : schema.placed[i]? = some (columnOffset, column)) :
    tuple.getValue schema i = tuple.readColumn columnOffset column := by
  unfold getValue readColumn
  rw [hplaced]

theorem readColumn_inlined {m : Memory} {size columnOffset : Nat} {column : Column} {value : Value}
    (htype : value.getTypeId = column.columnType) (hinlined : value.getTypeId ≠ .varchar)
    (hfits : columnOffset + value.serialize.length ≤ size)
    (hread : m.read columnOffset value.serialize.length = value.serialize) :
    readColumn (m.read 0 size) columnOffset column = .ok value := by
  unfold readColumn getDataPtr
  rw [if_pos (isInlined_eq_true htype hinlined), ← htype]
  refine deserialize_of_inlined hinlined ?_
  rw [slice_read m hfits, hread]

/-- A `VARCHAR` is read back if a signed number reaches it and, for a NULL, the fourth
byte is `0xFF` as well. -/
theorem readColumn_varchar_iff {m : Memory} {size columnOffset offset : Nat} {column : Column}
    {value : Option Varlen} (htype : (Value.varchar value).getTypeId = column.columnType)
    (hcolumn : columnOffset + 4 ≤ size) (hread : m.read columnOffset 4 = toBytes 4 offset)
    (hsmall : offset < 2 ^ 32) (hstored : VarlenStored m size offset value) :
    readColumn (m.read 0 size) columnOffset column = .ok (.varchar value) ↔
      offset < 2 ^ 31 ∧ (value = none → m (offset + 3) = 255) := by
  have hptr : getDataPtr (m.read 0 size) columnOffset column =
      if offset < 2 ^ 31 then .ok offset else .error .outOfBounds := by
    unfold getDataPtr
    rw [if_neg (by simp [isInlined_eq_false htype]), slice_read m hcolumn, hread]
    simp only [bind, Except.bind]
    rw [ofBytes_toBytes_of_lt (by omega)]
  unfold readColumn
  rw [hptr, ← htype]
  by_cases hreach : offset < 2 ^ 31
  · -- the offset is read as a signed number
    rw [if_pos hreach]
    simp only [bind, Except.bind, Value.getTypeId]
    cases value with
    | none =>
        rw [deserialize_eq_null_iff hstored.1 hstored.2]
        exact ⟨fun h => ⟨hreach, fun _ => h⟩, fun h => h.2 rfl⟩
    | some value =>
        rw [deserialize_varchar_some hstored.1 hstored.2]
        exact iff_of_true rfl ⟨hreach, nofun⟩
  · rw [if_neg hreach]
    exact iff_of_false nofun fun h => hreach h.1

/-- The byte that a `VARCHAR` starts with. -/
def firstByte : Option Varlen → UInt8
  | none => 255
  | some value => UInt8.ofNat value.data.length

theorem VarlenStored.apply_eq {m : Memory} {size offset : Nat} {value : Option Varlen}
    (h : VarlenStored m size offset value) : m offset = firstByte value := by
  cases value with
  | none => exact (List.cons.inj h.2).1
  | some value =>
      have hread := h.2
      rw [Memory.read_add, Memory.read_add m offset 1 3] at hread
      exact (List.cons.inj hread).1

/-- The first `VARCHAR` of the columns is at the offset. -/
theorem Stored.first {m : Memory} {size offset columnOffset : Nat} {columns : List Column}
    {values : List Value} {value : Option Varlen} {rest : List (Option Varlen)}
    (htypes : values.map Value.getTypeId = columns.map Column.columnType)
    (h : Stored m size offset ((Schema.placeFrom columnOffset columns).zip values))
    (hfirst : varlens values = value :: rest) : m offset = firstByte value := by
  induction columns generalizing columnOffset values with
  | nil =>
      rw [List.map_nil, List.map_eq_nil_iff] at htypes
      subst htypes
      cases hfirst
  | cons column columns ih =>
      cases values with
      | nil => cases hfirst
      | cons head values =>
          rw [List.map_cons, List.map_cons, List.cons.injEq] at htypes
          rw [Schema.placeFrom, List.zip_cons_cons] at h
          by_cases hinlined : head.getTypeId = .varchar
          · cases head with
            | varchar content =>
                cases hfirst
                exact h.2.2.1.apply_eq
            | _ => cases hinlined
          · rw [varlens_cons_of_inlined hinlined] at hfirst
            rw [stored_cons_of_inlined hinlined] at h
            exact ih htypes.2 h.2.2 hfirst

theorem covered_iff (content : Option Varlen) (rest : List (Option Varlen)) :
    NullsCovered (content :: rest) ↔ (content = none → rest.head?.map firstByte = some 255) ∧
      NullsCovered rest := by
  cases content with
  | some value => exact ⟨fun h => ⟨nofun, h⟩, fun h => h.2⟩
  | none =>
      cases rest with
      | nil => exact ⟨fun h => absurd h id, fun h => absurd (h.1 rfl) nofun⟩
      | cons next rest =>
          cases next with
          | none => exact ⟨fun h => ⟨fun _ => rfl, h⟩, fun h => h.2⟩
          | some value =>
              have hbyte : UInt8.ofNat value.data.length = 255 ↔
                  value.data.length % 2 ^ 8 = 255 := by
                rw [← UInt8.toNat_inj, UInt8.toNat_ofNat']
                rfl
              simp only [NullsCovered, List.head?_cons, Option.map_some, Option.some.injEq,
                firstByte, hbyte, forall_const]

/-- There are strings for the columns that are not inlined, and only for them. -/
def Shaped (columns : List Column) (values : List Value) : Prop :=
  values.map (fun value => value.getTypeId != .varchar) = columns.map Column.isInlined

theorem shaped_of_types {columns : List Column} {values : List Value}
    (htypes : values.map Value.getTypeId = columns.map Column.columnType) :
    Shaped columns values := by
  have hshape := congrArg (List.map fun type => type != TypeId.varchar) htypes
  rwa [List.map_map, List.map_map] at hshape

/-- The loop adds up the sizes of the `VARCHAR` values. -/
theorem tupleSize_eq {columns : List Column} {values : List Value} {columnOffset size : Nat}
    (hshape : Shaped columns values)
    (hsmall : size + countedSum (varlens values) < 2 ^ 32) :
    tupleSize size ((Schema.placeFrom columnOffset columns).zip values) =
      .ok (size + countedSum (varlens values)) := by
  induction columns generalizing columnOffset size values with
  | nil =>
      unfold Shaped at hshape
      rw [List.map_nil, List.map_eq_nil_iff] at hshape
      subst hshape
      rfl
  | cons column columns ih =>
      cases values with
      | nil => cases hshape
      | cons value values =>
          obtain ⟨hinline, hshapes⟩ := List.cons.inj hshape
          rw [Schema.placeFrom, List.zip_cons_cons, tupleSize]
          by_cases hinlined : value.getTypeId = .varchar
          · obtain ⟨content, rfl⟩ := exists_content hinlined
            obtain ⟨length, hlength⟩ := getLength_varchar content
            have hsum : varlens (.varchar content :: values) = content :: varlens values := rfl
            rw [hsum, countedSum_cons] at hsmall ⊢
            -- a string is counted apart from its column
            rw [if_neg (by rw [← hinline]; exact Bool.false_ne_true), hlength]
            simp only [bind, Except.bind]
            rw [toUInt32_add_length hlength (by omega), ih hshapes (by omega), Nat.add_assoc]
          · rw [varlens_cons_of_inlined hinlined] at hsmall ⊢
            rw [if_pos (by rw [← hinline]; exact bne_iff_ne.mpr hinlined)]
            exact ih hshapes hsmall

theorem tupleSize_lt {entries : List Entry} {size total : Nat} (hsize : size < 2 ^ 32)
    (hok : tupleSize size entries = .ok total) : total < 2 ^ 32 := by
  induction entries generalizing size with
  | nil =>
      cases hok
      exact hsize
  | cons entry entries ih =>
      obtain ⟨⟨columnOffset, column⟩, value⟩ := entry
      rw [tupleSize] at hok
      split at hok
      · exact ih hsize hok
      · cases hlength : value.getLength with
        | error fault =>
            rw [hlength] at hok
            cases hok
        | ok length =>
            rw [hlength] at hok
            exact ih (Nat.mod_lt _ (by decide)) hok

/-- A loop that stays inside a tuple does not wrap around. -/
theorem countedSum_lt {size columnOffset offset : Nat} {columns : List Column}
    {values : List Value} {data data' : Memory}
    (hshape : Shaped columns values)
    (hsize : size < 2 ^ 32) (hoffset : offset < 2 ^ 32)
    (hok : serializeColumns size offset data
      ((Schema.placeFrom columnOffset columns).zip values) = .ok data') :
    offset + countedSum (varlens values) < 2 ^ 32 := by
  induction columns generalizing columnOffset offset values data with
  | nil =>
      unfold Shaped at hshape
      rw [List.map_nil, List.map_eq_nil_iff] at hshape
      subst hshape
      exact hoffset
  | cons column columns ih =>
      cases values with
      | nil => cases hshape
      | cons value values =>
          obtain ⟨hinline, hshapes⟩ := List.cons.inj hshape
          rw [Schema.placeFrom, List.zip_cons_cons] at hok
          by_cases hinlined : value.getTypeId = .varchar
          · obtain ⟨content, rfl⟩ := exists_content hinlined
            obtain ⟨length, hlength⟩ := getLength_varchar content
            have hsum : varlens (.varchar content :: values) = content :: varlens values := rfl
            have hcounted := countedSize_le content
            rw [serializeColumns_varchar hinline.symm hlength] at hok
            obtain ⟨-, hfits, hrest⟩ := hok
            have hnext : offset + countedSize content < 2 ^ 32 := by omega
            rw [toUInt32_add_length hlength hnext] at hrest
            rw [hsum, countedSum_cons, ← Nat.add_assoc]
            exact ih hshapes hnext hrest
          · rw [varlens_cons_of_inlined hinlined]
            have hcolumn := hinline.symm.trans (bne_iff_ne.mpr hinlined)
            rw [serializeColumns_inlined hcolumn] at hok
            exact ih hshapes hoffset hok.2

/-- Every placed column reads back as its value. -/
def ReadsBack (tuple : Tuple) (placed : List (Nat × Column)) (values : List Value) : Prop :=
  ∀ (i : Nat) (value : Value), values[i]? = some value →
    ∃ place : Nat × Column, placed[i]? = some place ∧
      tuple.readColumn place.1 place.2 = .ok value

theorem readsBack_cons {tuple : Tuple} {place : Nat × Column} {placed : List (Nat × Column)}
    {value : Value} {values : List Value} :
    ReadsBack tuple (place :: placed) (value :: values) ↔
      tuple.readColumn place.1 place.2 = .ok value ∧ ReadsBack tuple placed values := by
  constructor
  · intro h
    obtain ⟨place', hplace, hread⟩ := h 0 value rfl
    cases hplace
    exact ⟨hread, fun i v hv => h (i + 1) v hv⟩
  · rintro ⟨hhead, htail⟩ i v hv
    cases i with
    | zero =>
        cases hv
        exact ⟨place, rfl, hhead⟩
    | succ i => exact htail i v hv

theorem offsetsFit_countedSum_lt {offset : Nat} {contents : List (Option Varlen)}
    (h : OffsetsFit offset contents) : offset + countedSum contents < 2 ^ 32 := by
  induction contents generalizing offset with
  | nil => exact h
  | cons content rest ih =>
      rw [countedSum_cons, ← Nat.add_assoc]
      exact ih h.2

/-- Every column of stored values reads back as its value, exactly if the NULL values
are covered and the offsets fit. -/
theorem readsBack_iff {m : Memory} {size columnOffset offset : Nat} {columns : List Column}
    {values : List Value}
    (htypes : values.map Value.getTypeId = columns.map Column.columnType)
    (hsmall : offset + countedSum (varlens values) < 2 ^ 32)
    (hsize : offset + countedSum (varlens values) = size)
    (hstored : Stored m size offset ((Schema.placeFrom columnOffset columns).zip values)) :
    ReadsBack (m.read 0 size) (Schema.placeFrom columnOffset columns) values ↔
      NullsCovered (varlens values) ∧ OffsetsFit offset (varlens values) := by
  induction columns generalizing columnOffset offset values with
  | nil =>
      rw [List.map_nil, List.map_eq_nil_iff] at htypes
      subst htypes
      exact ⟨fun _ => ⟨trivial, hsmall⟩, fun _ i value hvalue => by simp at hvalue⟩
  | cons column columns ih =>
      cases values with
      | nil => cases htypes
      | cons value values =>
          rw [List.map_cons, List.map_cons, List.cons.injEq] at htypes
          obtain ⟨htype, htypes⟩ := htypes
          rw [Schema.placeFrom, List.zip_cons_cons] at hstored
          rw [Schema.placeFrom, readsBack_cons]
          by_cases hinlined : value.getTypeId = .varchar
          · obtain ⟨content, rfl⟩ := exists_content hinlined
            have hsum : varlens (.varchar content :: values) = content :: varlens values := rfl
            rw [hsum, countedSum_cons] at hsmall hsize
            obtain ⟨hcolumn, hword, hvarlen, hrest⟩ := hstored
            rw [readColumn_varchar_iff htype hcolumn hword (by omega) hvarlen,
              ih htypes (by omega) (by omega) hrest, hsum, covered_iff, OffsetsFit]
            have hlast : content = none →
                (m (offset + 3) = 255 ↔ (varlens values).head?.map firstByte = some 255) := by
              rintro rfl
              cases hnext : varlens values with
              | nil =>
                  -- the fourth byte of the last NULL is outside of the tuple
                  rw [hnext] at hsize
                  have hfits := hvarlen.1
                  simp at hsize
                  omega
              | cons next rest =>
                  have hfirst : m (offset + 3) = firstByte next := hrest.first htypes hnext
                  rw [List.head?_cons, Option.map_some, Option.some.injEq, hfirst]
            constructor
            · rintro ⟨⟨hreach, hnull⟩, hcovered, hfits⟩
              exact ⟨⟨fun hnone => (hlast hnone).mp (hnull hnone), hcovered⟩, hreach, hfits⟩
            · rintro ⟨⟨hnull, hcovered⟩, hreach, hfits⟩
              exact ⟨⟨hreach, fun hnone => (hlast hnone).mpr (hnull hnone)⟩, hcovered, hfits⟩
          · rw [varlens_cons_of_inlined hinlined] at hsmall hsize ⊢
            rw [stored_cons_of_inlined hinlined] at hstored
            obtain ⟨hfits, hread, hrest⟩ := hstored
            rw [readColumn_inlined htype hinlined hfits hread, ih htypes hsmall hsize hrest]
            exact ⟨fun h => h.2, fun h => ⟨rfl, h⟩⟩

/-! ## Schemas -/

theorem foldl_length (columns : List Column) (currOffset : Nat)
    (hfits : currOffset + fixedSum columns < 2 ^ 32) :
    columns.foldl (fun currOffset column => toUInt32 (currOffset + column.fixedLength)) currOffset =
      currOffset + fixedSum columns := by
  induction columns generalizing currOffset with
  | nil => rfl
  | cons column columns ih =>
      rw [fixedSum_cons] at hfits ⊢
      have hnext : toUInt32 (currOffset + column.fixedLength) = currOffset + column.fixedLength :=
        Nat.mod_eq_of_lt (by omega)
      rw [List.foldl_cons, hnext, ih _ (by omega), Nat.add_assoc]

theorem length_eq {schema : Schema} (hfits : schema.fixedLength < 2 ^ 32) :
    schema.length = schema.fixedLength := by
  have hfold := foldl_length schema.columns 0 (by rwa [Nat.zero_add])
  rwa [Nat.zero_add] at hfold

theorem getValue_eq_ok_iff {tuple : Tuple} {schema : Schema} {values : List Value} :
    (∀ (i : Nat) (value : Value), values[i]? = some value → tuple.getValue schema i = .ok value) ↔
      ReadsBack tuple schema.placed values := by
  constructor
  · intro h i value hvalue
    have hget := h i value hvalue
    unfold getValue at hget
    cases hplaced : schema.placed[i]? with
    | none =>
        rw [hplaced] at hget
        cases hget
    | some place =>
        rw [hplaced] at hget
        exact ⟨place, rfl, hget⟩
  · intro h i value hvalue
    obtain ⟨place, hplaced, hread⟩ := h i value hvalue
    rw [getValue_eq hplaced, hread]

/-- What the constructor makes if no value is in the way: it never wraps around. -/
theorem ofValues_ok {schema : Schema} {values : List Value} {tuple : Tuple}
    (hfits : schema.fixedLength < 2 ^ 32) (haccepts : schema.Accepts values)
    (hok : ofValues values schema = .ok tuple) :
    schema.fixedLength + countedSum (varlens values) < 2 ^ 32 ∧
      ∃ m : Memory, tuple = m.read 0 (schema.fixedLength + countedSum (varlens values)) ∧
        Stored m (schema.fixedLength + countedSum (varlens values)) schema.fixedLength
          (schema.placed.zip values) := by
  unfold ofValues at hok
  rw [length_eq hfits] at hok
  split at hok
  · cases hok
  cases hsize : tupleSize schema.fixedLength (schema.placed.zip values) with
  | error fault =>
      rw [hsize] at hok
      cases hok
  | ok size =>
      simp only [hsize, bind, Except.bind] at hok
      cases hdata : serializeColumns size schema.fixedLength Memory.zeros
          (schema.placed.zip values) with
      | error fault =>
          rw [hdata] at hok
          cases hok
      | ok data =>
          rw [hdata] at hok
          cases hok
          -- that the writes stayed inside the tuple bounds the sum that the size wrapped around
          have hsmall := countedSum_lt (shaped_of_types haccepts) (tupleSize_lt hfits hsize) hfits hdata
          rw [Schema.placed, tupleSize_eq (shaped_of_types haccepts) hsmall, Except.ok.injEq] at hsize
          subst hsize
          obtain ⟨-, hstored⟩ := serializeColumns_stored haccepts
            (le_of_eq (Nat.zero_add _)) hsmall hdata
          exact ⟨hsmall, data, rfl, hstored⟩

/-- Values with covered NULLs within reach make a tuple that gives them back. -/
theorem exists_tuple_of_covered {schema : Schema} {values : List Value}
    (hfits : schema.fixedLength < 2 ^ 32) (haccepts : schema.Accepts values)
    (hcovered : NullsCovered (varlens values))
    (hoffsets : OffsetsFit schema.fixedLength (varlens values)) :
    ∃ tuple, ofValues values schema = .ok tuple ∧
      tuple.length = schema.fixedLength + countedSum (varlens values) ∧
      ∀ (i : Nat) (value : Value), values[i]? = some value →
        tuple.getValue schema i = .ok value := by
  have hsmall : schema.fixedLength + countedSum (varlens values) < 2 ^ 32 :=
    offsetsFit_countedSum_lt hoffsets
  obtain ⟨data, hdata⟩ : ∃ data, serializeColumns
      (schema.fixedLength + countedSum (varlens values)) schema.fixedLength Memory.zeros
      (schema.placed.zip values) = .ok data :=
    serializeColumns_isOk haccepts (le_of_eq (Nat.zero_add _)) hsmall (le_refl _) hcovered
  have hlengths : values.length = schema.columns.length := by
    have hmap := congrArg List.length haccepts
    rwa [List.length_map, List.length_map] at hmap
  -- the size does not wrap around, and the last write ends inside it
  have hok : ofValues values schema =
      .ok (data.read 0 (schema.fixedLength + countedSum (varlens values))) := by
    unfold ofValues
    rw [if_neg (not_not.mpr hlengths), length_eq hfits]
    have hsize : tupleSize schema.fixedLength (schema.placed.zip values) =
        .ok (schema.fixedLength + countedSum (varlens values)) :=
      tupleSize_eq (shaped_of_types haccepts) hsmall
    simp only [hsize, hdata, bind, Except.bind]
  obtain ⟨-, hstored⟩ := serializeColumns_stored haccepts (le_of_eq (Nat.zero_add _)) hsmall hdata
  refine ⟨_, hok, Memory.length_read _ _ _, ?_⟩
  rw [getValue_eq_ok_iff]
  exact (readsBack_iff haccepts hsmall rfl hstored).mpr ⟨hcovered, hoffsets⟩

/-- A tuple gives its values back exactly if every NULL `VARCHAR` is covered by the next
one and all of them are within reach. -/
theorem roundTrips_iff (schema : Schema) (values : List Value)
    (hfits : schema.fixedLength < 2 ^ 32) (haccepts : schema.Accepts values) :
    RoundTrips schema values ↔
      NullsCovered (varlens values) ∧ OffsetsFit schema.fixedLength (varlens values) := by
  constructor
  · rintro ⟨tuple, hok, hget⟩
    obtain ⟨hsmall, m, rfl, hstored⟩ := ofValues_ok hfits haccepts hok
    rw [getValue_eq_ok_iff] at hget
    exact (readsBack_iff haccepts hsmall rfl hstored).mp hget
  · rintro ⟨hcovered, hoffsets⟩
    obtain ⟨tuple, hok, -, hget⟩ := exists_tuple_of_covered hfits haccepts hcovered hoffsets
    exact ⟨tuple, hok, hget⟩

/-- A number and a text. -/
def noteSchema : Schema := ⟨[⟨"id", .integer, none⟩, ⟨"note", .varchar, none⟩]⟩

/-- The text `a` with its terminator. -/
def noteValues : List Value := [.integer 7, .varchar (some ⟨[97, 0], by decide⟩)]

theorem roundTrips_noteValues : RoundTrips noteSchema noteValues :=
  (roundTrips_iff noteSchema noteValues (by decide) rfl).mpr
    ⟨trivial, by decide, by change 22 < 2 ^ 32; decide⟩

/-- The tuple of a text that is NULL is written beyond its end. -/
theorem not_roundTrips_null : noteSchema.Accepts [.integer 7, .varchar none] ∧
    ofValues [.integer 7, .varchar none] noteSchema = .error .outOfBounds ∧
    ¬ RoundTrips noteSchema [.integer 7, .varchar none] := by
  have hout : ofValues [.integer 7, .varchar none] noteSchema = .error .outOfBounds := rfl
  refine ⟨rfl, hout, ?_⟩
  rintro ⟨tuple, hok, -⟩
  rw [hout] at hok
  cases hok

end Tuple

end BusTub
