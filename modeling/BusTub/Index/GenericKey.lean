import BusTub.Execution.GroupKeys
import BusTub.Library.ColumnOrder
import BusTub.Types.TupleRoundTrip

/-! # Generic keys

`GenericKey`, the bytes of a key tuple, and `GenericComparator`, which reads both keys
column by column and asks of each column whether the left value is less or greater. With a
NULL the answer to both is no, so that the column decides nothing.
-/

namespace BusTub

/-- `GenericKey<KeySize>`. -/
@[ext] structure GenericKey (keySize : Nat) where
  data : List UInt8
  length_eq : data.length = keySize
  deriving DecidableEq, Repr

namespace GenericKey

variable {keySize : Nat}

/-- `SetFromKey`. -/
def setFromKey (keySize : Nat) (tuple : Tuple) : Except EvalFault (GenericKey keySize) :=
  if h : tuple.length ≤ keySize then
    .ok ⟨tuple ++ List.replicate (keySize - tuple.length) 0, by simp; omega⟩
  else .error .outOfBounds

/-- `ToValue`: the key is read like a tuple. -/
def toValue (key : GenericKey keySize) (schema : Schema) (columnIdx : Nat) :
    Except EvalFault Value :=
  Tuple.getValue key.data schema columnIdx

end GenericKey

namespace GenericComparator

variable {keySize : Nat}

section Comparator

variable [DoubleText]

/-- The loop of the comparator over the columns that are left. -/
def compareColumns (keySchema : Schema) (lhs rhs : GenericKey keySize) :
    List Nat → Except EvalFault Int
  | [] => .ok 0
  | i :: rest => do
      let lhsValue ← lhs.toValue keySchema i
      let rhsValue ← rhs.toValue keySchema i
      -- with a NULL both comparisons answer `CmpNull`
      if (← lhsValue.compareLessThan rhsValue) = .cmpTrue then .ok (-1)
      else if (← lhsValue.compareGreaterThan rhsValue) = .cmpTrue then .ok 1
      else compareColumns keySchema lhs rhs rest

/-- `operator()`. -/
def compare (keySchema : Schema) (lhs rhs : GenericKey keySize) : Except EvalFault Int :=
  compareColumns keySchema lhs rhs (List.range keySchema.columns.length)

end Comparator

end GenericComparator

/-! ## What a key reads as -/

namespace Tuple

variable {tuple rest : Tuple} {schema : Schema} {i offset n : Nat} {value : Value}

theorem slice_append {bytes : List UInt8} (h : slice tuple offset n = .ok bytes) :
    slice (tuple ++ rest) offset n = .ok bytes := by
  unfold slice at h ⊢
  split at h
  next hfits =>
    cases h
    have hfits' : offset + n ≤ (tuple ++ rest).length := by
      rw [List.length_append]
      omega
    rw [if_pos hfits', List.drop_append_of_le_length (by omega), List.take_append_of_le_length]
    rw [List.length_drop]
    omega
  next => cases h

theorem deserialize_append {typeId : TypeId} (h : tuple.deserialize offset typeId = .ok value) :
    Tuple.deserialize (tuple ++ rest) offset typeId = .ok value := by
  cases typeId with
  | varchar =>
      obtain ⟨len, hlen, hrest⟩ := Except.bind_eq_ok_iff.mp h
      apply Except.bind_eq_ok_iff.mpr
      refine ⟨len, slice_append hlen, ?_⟩
      dsimp only at hrest ⊢
      split at hrest
      next hnull =>
        rw [if_pos hnull]
        exact hrest
      next hsome =>
        rw [if_neg hsome]
        obtain ⟨data, hdata, hvalue⟩ := Except.bind_eq_ok_iff.mp hrest
        exact Except.bind_eq_ok_iff.mpr ⟨data, slice_append hdata, hvalue⟩
  | _ =>
      obtain ⟨bytes, hbytes, hrest⟩ := Except.bind_eq_ok_iff.mp h
      exact Except.bind_eq_ok_iff.mpr ⟨bytes, slice_append hbytes, hrest⟩

/-- A column that can be read can be read with more bytes after the tuple. -/
theorem getValue_append (h : tuple.getValue schema i = .ok value) :
    Tuple.getValue (tuple ++ rest) schema i = .ok value := by
  unfold getValue at h ⊢
  split at h
  next => cases h
  next columnOffset column hplace =>
    obtain ⟨dataPtr, hptr, hread⟩ := Except.bind_eq_ok_iff.mp h
    apply Except.bind_eq_ok_iff.mpr
    refine ⟨dataPtr, ?_, deserialize_append hread⟩
    unfold getDataPtr at hptr ⊢
    split at hptr
    next hinlined =>
      rw [if_pos hinlined]
      exact hptr
    next huninlined =>
      rw [if_neg huninlined]
      obtain ⟨bytes, hbytes, hrest⟩ := Except.bind_eq_ok_iff.mp hptr
      exact Except.bind_eq_ok_iff.mpr ⟨bytes, slice_append hbytes, hrest⟩

end Tuple

namespace GenericKey

variable {keySize : Nat} {tuple : Tuple} {key : GenericKey keySize}

theorem setFromKey_eq_ok_iff : setFromKey keySize tuple = .ok key ↔
    tuple.length ≤ keySize ∧ key.data = tuple ++ List.replicate (keySize - tuple.length) 0 := by
  unfold setFromKey
  constructor
  · intro h
    split at h
    next hfits =>
      cases h
      exact ⟨hfits, rfl⟩
    next => cases h
  · rintro ⟨hfits, hdata⟩
    rw [dif_pos hfits]
    exact congrArg Except.ok (GenericKey.ext hdata.symm)

/-- The bytes of a key are a tuple that it is set from. -/
@[simp] theorem setFromKey_data (key : GenericKey keySize) :
    setFromKey keySize key.data = .ok key := by
  rw [setFromKey_eq_ok_iff, key.length_eq, Nat.sub_self]
  exact ⟨le_refl _, (List.append_nil _).symm⟩

/-- The columns of a tuple are read from its key. -/
theorem toValue_of_setFromKey (hset : setFromKey keySize tuple = .ok key) {schema : Schema}
    {i : Nat} {value : Value} (hvalue : tuple.getValue schema i = .ok value) :
    key.toValue schema i = .ok value := by
  unfold toValue
  rw [(setFromKey_eq_ok_iff.mp hset).2]
  exact Tuple.getValue_append hvalue

end GenericKey

/-! ## The order of the classes -/

namespace KeyClass

/-- The order of the numbers and of the texts. -/
def Less : KeyClass → KeyClass → Prop
  | .number i, .number j => i < j
  | .number _, .text _ => True
  | .text _, .number _ => False
  | .text s, .text t => s < t

instance : DecidableRel Less
  | .number i, .number j => inferInstanceAs (Decidable (i < j))
  | .number _, .text _ => isTrue trivial
  | .text _, .number _ => isFalse id
  | .text s, .text t => inferInstanceAs (Decidable (s < t))

instance : IsStrictTotalOrder KeyClass Less where
  trichotomous a b hnot hnot' := by
    cases a with
    | number i =>
        cases b with
        | number j => exact congrArg number (le_antisymm (not_lt.mp hnot') (not_lt.mp hnot))
        | text t => exact absurd trivial hnot
    | text s =>
        cases b with
        | number j => exact absurd trivial hnot'
        | text t => exact congrArg text (List.le_antisymm hnot' hnot)
  irrefl a := by
    cases a with
    | number i => exact lt_irrefl i
    | text s => exact List.lt_irrefl s
  trans a b c hab hbc := by
    cases a with
    | number i =>
        cases b with
        | number j =>
            cases c with
            | number k => exact lt_trans hab hbc
            | text u => trivial
        | text t =>
            cases c with
            | number k => cases hbc
            | text u => trivial
    | text s =>
        cases b with
        | number j => cases hab
        | text t =>
            cases c with
            | number k => cases hbc
            | text u => exact List.lt_trans hab hbc

end KeyClass

/-! ## One column -/

namespace Value

open KeyClass

variable [DoubleText] {left right : Value}

omit [DoubleText] in
/-- A value without a class is NULL. -/
theorem isNull_of_definiteClass (hterminated : left.Terminated)
    (hdecimal : left.getTypeId ≠ .decimal) (hclass : left.definiteClass = none) :
    left.isNull = true := by
  by_contra hsome
  have hnan : left.isNan = false := by
    cases left with
    | decimal content => exact absurd rfl hdecimal
    | _ => rfl
  have hdefinite : left.isDefinite = true := by
    unfold isDefinite
    rw [Bool.eq_false_iff.mpr hsome, hnan]
    rfl
  obtain ⟨c, hc⟩ := (isDefinite_iff hterminated).mp hdefinite
  rw [hc] at hclass
  cases hclass

omit [DoubleText] in
theorem isNull_eq_false {c : KeyClass} (hclass : left.definiteClass = some c) :
    left.isNull = false := by
  rw [← Bool.not_eq_true]
  intro hnull
  unfold definiteClass at hclass
  rw [if_pos hnull] at hclass
  cases hclass

theorem compareVarlen_eq {text text' : Varlen} {str1 str2 : List UInt8} (op : ComparisonType)
    (hstr1 : text.comparedText = .ok str1) (hstr2 : text'.comparedText = .ok str2) :
    compareVarlen op text (.varchar (some text')) =
      .ok (getCmpBool (op.int (compareStrings str1 str2) 0)) := by
  rw [compareVarlen, hstr1, hstr2]
  rfl

/-- Values of one type are compared by their classes. -/
theorem compare_of_classes (htype : left.getTypeId = right.getTypeId)
    (hdecimal : left.getTypeId ≠ .decimal) {a b : KeyClass}
    (hleft : left.definiteClass = some a) (hright : right.definiteClass = some b) :
    left.compareLessThan right = .ok (getCmpBool (Less a b)) ∧
      left.compareGreaterThan right = .ok (getCmpBool (Less b a)) := by
  have hsome := isNull_eq_false hleft
  have hsome' := isNull_eq_false hright
  unfold definiteClass at hleft hright
  rw [hsome, if_neg Bool.false_ne_true] at hleft
  rw [hsome', if_neg Bool.false_ne_true] at hright
  unfold compareLessThan compareGreaterThan compare
  rw [checkComparable_of_getTypeId htype, hsome, hsome']
  -- every type but the strings compares its numbers
  have hnumber : ∀ i j : Int, some (KeyClass.number i) = some a →
      some (KeyClass.number j) = some b →
      (.ok (getCmpBool (ComparisonType.lessThan.int i j)) : Except EvalFault CmpBool) =
        .ok (getCmpBool (Less a b)) ∧
      (.ok (getCmpBool (ComparisonType.greaterThan.int i j)) : Except EvalFault CmpBool) =
        .ok (getCmpBool (Less b a)) := by
    intro i j hi hj
    cases hi
    cases hj
    exact ⟨rfl, rfl⟩
  cases left with
  | boolean value =>
      cases right with
      | boolean value' => exact hnumber _ _ hleft hright
      | _ => cases htype
  | tinyint value =>
      cases right with
      | tinyint value' => exact hnumber _ _ hleft hright
      | _ => cases htype
  | smallint value =>
      cases right with
      | smallint value' => exact hnumber _ _ hleft hright
      | _ => cases htype
  | integer value =>
      cases right with
      | integer value' => exact hnumber _ _ hleft hright
      | _ => cases htype
  | bigint value =>
      cases right with
      | bigint value' => exact hnumber _ _ hleft hright
      | _ => cases htype
  | decimal value => exact absurd rfl hdecimal
  | varchar content =>
      cases right with
      | varchar content' =>
          cases content with
          | none => cases hsome
          | some text =>
              cases content' with
              | none => cases hsome'
              | some text' =>
                  obtain ⟨str1, hstr1, rfl⟩ := keyClass_varchar_eq_some_iff.mp hleft
                  obtain ⟨str2, hstr2, rfl⟩ := keyClass_varchar_eq_some_iff.mp hright
                  change compareVarlen .lessThan text (.varchar (some text')) = _ ∧
                    compareVarlen .greaterThan text (.varchar (some text')) = _
                  have hless : Less (.text str1) (.text str2) ↔ compareStrings str1 str2 < 0 :=
                    compareStrings_neg_iff.symm
                  have hgreater : Less (.text str2) (.text str1) ↔ 0 < compareStrings str1 str2 :=
                    compareStrings_pos_iff.symm
                  rw [compareVarlen_eq _ hstr1 hstr2, compareVarlen_eq _ hstr1 hstr2,
                    decide_eq_decide.mpr hless, decide_eq_decide.mpr hgreater]
                  exact ⟨rfl, rfl⟩
      | _ => cases htype

/-- Values of one type agree when their classes do, none with none. -/
theorem agree_iff_class (htype : left.getTypeId = right.getTypeId)
    (hdecimal : left.getTypeId ≠ .decimal) (hleft : left.Terminated) (hright : right.Terminated) :
    Agree left right ↔ left.definiteClass = right.definiteClass := by
  rw [agree_iff htype]
  unfold agreementClass
  cases hc : left.definiteClass with
  | some c =>
      cases hc' : right.definiteClass with
      | some c' => exact Sum.inl_injective.eq_iff.trans (Option.some_injective _).eq_iff.symm
      | none =>
          refine iff_of_false ?_ ?_
          · intro h
            cases h
          · intro h
            cases h
  | none =>
      cases hc' : right.definiteClass with
      | some c' =>
          refine iff_of_false ?_ ?_
          · intro h
            cases h
          · intro h
            cases h
      | none =>
          refine iff_of_true (congrArg Sum.inr ?_) rfl
          exact eq_of_isNull htype (isNull_of_definiteClass hleft hdecimal hc)
            (isNull_of_definiteClass hright (htype ▸ hdecimal) hc')

/-- A column that does not decide is neither less nor greater. -/
theorem compare_of_undecided (htype : left.getTypeId = right.getTypeId)
    (hdecimal : left.getTypeId ≠ .decimal) (hleft : left.Terminated) (hright : right.Terminated)
    (hundecided : ColumnOrder.Undecided left.definiteClass right.definiteClass) :
    ∃ less greater, left.compareLessThan right = .ok less ∧
      left.compareGreaterThan right = .ok greater ∧ less ≠ .cmpTrue ∧ greater ≠ .cmpTrue := by
  have hnull : left.isNull = true ∨ right.isNull = true →
      ∃ less greater, left.compareLessThan right = .ok less ∧
        left.compareGreaterThan right = .ok greater ∧ less ≠ .cmpTrue ∧ greater ≠ .cmpTrue :=
    fun h => ⟨.cmpNull, .cmpNull, compare_of_null .lessThan htype h,
      compare_of_null .greaterThan htype h, by decide, by decide⟩
  cases hc : left.definiteClass with
  | none => exact hnull (Or.inl (isNull_of_definiteClass hleft hdecimal hc))
  | some c =>
      rw [hc] at hundecided
      rcases hundecided with hnone | hnone | hsame
      · cases hnone
      · exact hnull (Or.inr (isNull_of_definiteClass hright (htype ▸ hdecimal) hnone))
      · obtain ⟨hlt, hgt⟩ := compare_of_classes htype hdecimal hc hsame.symm
        rw [decide_eq_false (irrefl c)] at hlt hgt
        exact ⟨.cmpFalse, .cmpFalse, hlt, hgt, by decide, by decide⟩

/-- The comparison of a VARCHAR with itself takes its length. -/
theorem terminated_of_compare_self {truth : CmpBool}
    (h : left.compareLessThan left = .ok truth) : left.Terminated := by
  rintro text rfl
  change compareVarlen .lessThan text (.varchar (some text)) = .ok truth at h
  obtain ⟨str1, hstr1, -⟩ := Except.bind_eq_ok_iff.mp h
  exact lengthTaken_of_comparedText hstr1

end Value

/-! ## All columns -/

namespace GenericComparator

open ColumnOrder

variable {keySize : Nat}

/-- The values of the columns of a key that can be read. -/
def valuesOf (keySchema : Schema) (key : GenericKey keySize) : List Value :=
  ((List.range keySchema.columns.length).mapM (key.toValue keySchema)).toOption.getD []

/-- The classes of the columns, none for NULL. -/
def classesOf (keySchema : Schema) (key : GenericKey keySize) : List (Option KeyClass) :=
  (valuesOf keySchema key).map Value.definiteClass

/-- The columns of the key can be read, and a VARCHAR has a length that `CompareStrings` takes. -/
structure Readable (keySchema : Schema) (key : GenericKey keySize) : Prop where
  values : (List.range keySchema.columns.length).mapM (key.toValue keySchema) =
    .ok (valuesOf keySchema key)
  terminated : ∀ value ∈ valuesOf keySchema key, value.Terminated

theorem valuesOf_eq {keySchema : Schema} {key : GenericKey keySize} {values : List Value}
    (hread : (List.range keySchema.columns.length).mapM (key.toValue keySchema) = .ok values) :
    valuesOf keySchema key = values := by
  unfold valuesOf
  rw [hread]
  rfl

theorem readable_of_mapM {keySchema : Schema} {key : GenericKey keySize} {values : List Value}
    (hread : (List.range keySchema.columns.length).mapM (key.toValue keySchema) = .ok values)
    (hterminated : ∀ value ∈ values, value.Terminated) : Readable keySchema key := by
  have hvalues := valuesOf_eq hread
  exact ⟨hvalues.symm ▸ hread, hvalues.symm ▸ hterminated⟩

/-- A tuple that gives back its values gives them to its key. -/
theorem mapM_toValue_of_setFromKey {keySchema : Schema} {tuple : Tuple} {key : GenericKey keySize}
    {values : List Value} (hset : GenericKey.setFromKey keySize tuple = .ok key)
    (hlength : values.length = keySchema.columns.length)
    (hvalues : ∀ (i : Nat) (value : Value), values[i]? = some value →
      tuple.getValue keySchema i = .ok value) :
    (List.range keySchema.columns.length).mapM (key.toValue keySchema) = .ok values := by
  rw [Except.mapM_eq_ok_iff, List.forall₂_iff_get]
  refine ⟨by rw [List.length_range, hlength], ?_⟩
  intro i hi hi'
  rw [List.get_eq_getElem, List.getElem_range]
  exact GenericKey.toValue_of_setFromKey hset (hvalues i _ (List.getElem?_eq_getElem hi'))

/-- The key of values with covered NULLs that fit the key reads as the values. -/
theorem readable_of_covered {keySchema : Schema} {values : List Value}
    (hsmall : keySchema.fixedLength < 2 ^ 32) (haccepts : keySchema.Accepts values)
    (hterminated : ∀ value ∈ values, value.Terminated) (hcovered : NullsCovered (varlens values))
    (hoffsets : OffsetsFit keySchema.fixedLength (varlens values))
    (hfits : keySchema.fixedLength + Tuple.countedSum (varlens values) ≤ keySize) :
    ∃ (tuple : Tuple) (key : GenericKey keySize), Tuple.ofValues values keySchema = .ok tuple ∧
      GenericKey.setFromKey keySize tuple = .ok key ∧ Readable keySchema key ∧
      valuesOf keySchema key = values := by
  obtain ⟨tuple, hok, hsize, hvalues⟩ :=
    Tuple.exists_tuple_of_covered hsmall haccepts hcovered hoffsets
  have hlength : values.length = keySchema.columns.length := by
    have hmap := congrArg List.length haccepts
    rwa [List.length_map, List.length_map] at hmap
  have hset : GenericKey.setFromKey keySize tuple = .ok _ := dif_pos (hsize.trans_le hfits)
  have hread := mapM_toValue_of_setFromKey hset hlength hvalues
  exact ⟨tuple, _, hok, hset, readable_of_mapM hread hterminated, valuesOf_eq hread⟩

/-- The types of the columns. -/
def columnTypes (keySchema : Schema) : List TypeId := keySchema.columns.map Column.columnType

variable {keySchema : Schema} {lhs rhs key : GenericKey keySize}

theorem keyOfTypes (h : Readable keySchema key) :
    KeyOfTypes (columnTypes keySchema) (valuesOf keySchema key) :=
  ⟨Tuple.map_getTypeId_of_mapM h.values, h.terminated⟩

variable [DoubleText]

/-- The loop compares the classes of the columns that are left. -/
theorem compareColumns_eq {indices : List Nat} {types : List TypeId} {xs ys : List Value}
    (hdecimal : ∀ typeId ∈ types, typeId ≠ .decimal)
    (hxs : List.Forall₂ (fun i value => lhs.toValue keySchema i = .ok value) indices xs)
    (hys : List.Forall₂ (fun i value => rhs.toValue keySchema i = .ok value) indices ys)
    (hleft : KeyOfTypes types xs) (hright : KeyOfTypes types ys) :
    compareColumns keySchema lhs rhs indices =
      .ok (ColumnOrder.compare KeyClass.Less (xs.map Value.definiteClass)
        (ys.map Value.definiteClass)) := by
  induction hxs generalizing types ys with
  | nil =>
      cases hys
      rfl
  | @cons i x indices xs hx hrest ih =>
      cases hys with
      | @cons _ y _ ys hy hrest' =>
          obtain ⟨_, _, rfl, rfl, hterminated, hleft⟩ := KeyOfTypes.cons_iff.mp hleft
          obtain ⟨_, _, hsplit, htype, hterminated', hright⟩ := KeyOfTypes.cons_iff.mp hright
          cases hsplit
          obtain ⟨hdecimal, hdecimals⟩ := List.forall_mem_cons.mp hdecimal
          have hloop := ih hdecimals hrest' hleft hright
          -- one turn of the loop over the columns of the key
          have hturn : ∀ less greater, x.compareLessThan y = .ok less →
              x.compareGreaterThan y = .ok greater →
              compareColumns keySchema lhs rhs (i :: indices) =
                if less = .cmpTrue then .ok (-1) else if greater = .cmpTrue then .ok 1
                else compareColumns keySchema lhs rhs indices := by
            intro less greater hless hgreater
            rw [compareColumns, hx, hy]
            change (x.compareLessThan y >>= fun result => if result = .cmpTrue then _ else
              x.compareGreaterThan y >>= fun result => _) = _
            rw [hless, hgreater]
            rfl
          rw [List.map_cons, List.map_cons]
          rcases decided_cases KeyClass.Less x.definiteClass y.definiteClass with
            ⟨p, q, hp, hq, hless⟩ | ⟨p, q, hp, hq, hless⟩ | hundecided
          · obtain ⟨hlt, hgt⟩ := Value.compare_of_classes htype.symm hdecimal hp hq
            rw [hturn _ _ hlt hgt, hp, hq, ColumnOrder.compare, if_pos hless, decide_eq_true hless]
            rfl
          · obtain ⟨hlt, hgt⟩ := Value.compare_of_classes htype.symm hdecimal hp hq
            have hnot := asymm_of KeyClass.Less hless
            rw [hturn _ _ hlt hgt, hp, hq, ColumnOrder.compare, if_neg hnot, if_pos hless,
              decide_eq_true hless, decide_eq_false hnot]
            rfl
          · obtain ⟨less, greater, hlt, hgt, hless, hgreater⟩ :=
              Value.compare_of_undecided htype.symm hdecimal hterminated hterminated' hundecided
            rw [hturn _ _ hlt hgt, if_neg hless, if_neg hgreater, compare_cons hundecided]
            exact hloop

/-- The comparator compares the classes of the columns. -/
theorem compare_eq (hdecimal : ∀ typeId ∈ columnTypes keySchema, typeId ≠ .decimal)
    (hlhs : Readable keySchema lhs) (hrhs : Readable keySchema rhs) :
    compare keySchema lhs rhs = .ok (ColumnOrder.compare KeyClass.Less (classesOf keySchema lhs)
      (classesOf keySchema rhs)) :=
  compareColumns_eq hdecimal (Except.mapM_eq_ok_iff.mp hlhs.values)
    (Except.mapM_eq_ok_iff.mp hrhs.values) (keyOfTypes hlhs) (keyOfTypes hrhs)

/-- A loop that compares a key with itself to the end reads all columns that are left. -/
theorem exists_values_of_compareColumns_self {indices : List Nat} {sign : Int}
    (hdecimal : ∀ typeId ∈ columnTypes keySchema, typeId ≠ .decimal)
    (hok : compareColumns keySchema key key indices = .ok sign) :
    ∃ values, List.Forall₂ (fun i value => key.toValue keySchema i = .ok value) indices values ∧
      ∀ value ∈ values, value.Terminated := by
  induction indices with
  | nil => exact ⟨[], .nil, List.forall_mem_nil _⟩
  | cons i indices ih =>
      obtain ⟨value, hvalue, hrest⟩ := Except.bind_eq_ok_iff.mp hok
      obtain ⟨value', hvalue', hrest⟩ := Except.bind_eq_ok_iff.mp hrest
      rw [hvalue] at hvalue'
      cases hvalue'
      obtain ⟨truth, htruth, hrest⟩ := Except.bind_eq_ok_iff.mp hrest
      have hterminated := Value.terminated_of_compare_self htruth
      have htype : value.getTypeId ≠ .decimal := by
        obtain ⟨column, hcolumn, hcolumnType⟩ :=
          Option.map_eq_some_iff.mp (Tuple.getTypeId_of_getValue hvalue)
        rw [← hcolumnType]
        exact hdecimal _ (List.mem_map_of_mem (List.mem_of_getElem? hcolumn))
      -- a value is neither below nor above itself, so that the loop goes on to the next column
      obtain ⟨less, greater, hless, hgreater, hnot, hnot'⟩ :=
        Value.compare_of_undecided rfl htype hterminated hterminated (Or.inr (Or.inr rfl))
      rw [hless] at htruth
      cases htruth
      rw [if_neg hnot] at hrest
      obtain ⟨truth', htruth', hrest⟩ := Except.bind_eq_ok_iff.mp hrest
      rw [hgreater] at htruth'
      cases htruth'
      rw [if_neg hnot'] at hrest
      obtain ⟨values, hvalues, hall⟩ := ih hrest
      exact ⟨value :: values, .cons hvalue hvalues, List.forall_mem_cons.mpr ⟨hterminated, hall⟩⟩

/-- A key that can be compared with itself is readable. -/
theorem readable_of_compare_self {sign : Int}
    (hdecimal : ∀ typeId ∈ columnTypes keySchema, typeId ≠ .decimal)
    (hok : compare keySchema key key = .ok sign) : Readable keySchema key := by
  obtain ⟨values, hvalues, hterminated⟩ := exists_values_of_compareColumns_self hdecimal hok
  exact readable_of_mapM (Except.mapM_eq_ok_iff.mpr hvalues) hterminated

theorem keysAgree_iff_classes {types : List TypeId} {xs ys : List Value}
    (hdecimal : ∀ typeId ∈ types, typeId ≠ .decimal) (hleft : KeyOfTypes types xs)
    (hright : KeyOfTypes types ys) :
    KeysAgree xs ys ↔ xs.map Value.definiteClass = ys.map Value.definiteClass := by
  induction xs generalizing types ys with
  | nil =>
      rw [KeyOfTypes.nil_iff.mp hleft] at hright
      rw [List.map_eq_nil_iff.mp hright.types_eq]
      exact iff_of_true .nil rfl
  | cons x xs ih =>
      obtain ⟨_, _, rfl, htype, hterminated, hleft⟩ := KeyOfTypes.cons_iff.mp hleft
      cases ys with
      | nil => cases hright.types_eq
      | cons y ys =>
          obtain ⟨_, _, hsplit, htype', hterminated', hright⟩ := KeyOfTypes.cons_iff.mp hright
          cases hsplit
          obtain ⟨hdecimal, hdecimals⟩ := List.forall_mem_cons.mp hdecimal
          have hone := Value.agree_iff_class (htype.trans htype'.symm) (htype ▸ hdecimal)
            hterminated hterminated'
          rw [KeysAgree, List.forall₂_cons, hone, List.map_cons, List.map_cons, List.cons.injEq]
          exact and_congr_right fun _ => ih hdecimals hleft hright

/-- The keys agree in every column, NULL with NULL. -/
def Agree (keySchema : Schema) (lhs rhs : GenericKey keySize) : Prop :=
  KeysAgree (valuesOf keySchema lhs) (valuesOf keySchema rhs)

theorem agree_iff (hdecimal : ∀ typeId ∈ columnTypes keySchema, typeId ≠ .decimal)
    (hlhs : Readable keySchema lhs) (hrhs : Readable keySchema rhs) :
    Agree keySchema lhs rhs ↔ classesOf keySchema lhs = classesOf keySchema rhs :=
  keysAgree_iff_classes hdecimal (keyOfTypes hlhs) (keyOfTypes hrhs)

/-! ## The order of keys -/

/-- In the first column in which neither key is NULL and they differ, the left one is less. -/
def Below (keySchema : Schema) (lhs rhs : GenericKey keySize) : Prop :=
  ColumnOrder.Below KeyClass.Less (classesOf keySchema lhs) (classesOf keySchema rhs)

/-- The comparator is a total preorder of the keys, and keys compare as equal just if they
agree. -/
structure OrdersKeys (keySchema : Schema) (keys : Set (GenericKey keySize)) : Prop where
  zero_iff : ∀ lhs ∈ keys, ∀ rhs ∈ keys,
    compare keySchema lhs rhs = .ok 0 ↔ Agree keySchema lhs rhs
  swap : ∀ lhs ∈ keys, ∀ rhs ∈ keys, ∃ sign,
    compare keySchema lhs rhs = .ok sign ∧ compare keySchema rhs lhs = .ok (-sign)
  trans : ∀ first ∈ keys, ∀ second ∈ keys, ∀ third ∈ keys, ∀ sign ≤ 0, ∀ sign' ≤ 0,
    compare keySchema first second = .ok sign → compare keySchema second third = .ok sign' →
      ∃ sign'' ≤ 0, compare keySchema first third = .ok sign''

/-- Keys that do not agree differ in a column in which neither is NULL, and no three keys are
in a circle. -/
structure Distinguished (keySchema : Schema) (keys : Set (GenericKey keySize)) : Prop where
  readable : ∀ key ∈ keys, Readable keySchema key
  separated : ∀ lhs ∈ keys, ∀ rhs ∈ keys,
    Agree keySchema lhs rhs ∨ Below keySchema lhs rhs ∨ Below keySchema rhs lhs
  acyclic : ∀ first ∈ keys, ∀ second ∈ keys, ∀ third ∈ keys, Below keySchema first second →
    Below keySchema second third → ¬ Below keySchema third first

variable {keys : Set (GenericKey keySize)}

theorem OrdersKeys.readable (hdecimal : ∀ typeId ∈ columnTypes keySchema, typeId ≠ .decimal)
    (h : OrdersKeys keySchema keys) : ∀ key ∈ keys, Readable keySchema key := by
  intro key hkey
  obtain ⟨sign, hok, -⟩ := h.swap key hkey key hkey
  exact readable_of_compare_self hdecimal hok

section Readable

variable (hdecimal : ∀ typeId ∈ columnTypes keySchema, typeId ≠ .decimal)
  (hkeys : ∀ key ∈ keys, Readable keySchema key)

include hdecimal hkeys

theorem ordersKeys_iff_orders :
    OrdersKeys keySchema keys ↔ Orders KeyClass.Less (Set.image (classesOf keySchema) keys) := by
  have hcompare : ∀ lhs ∈ keys, ∀ rhs ∈ keys, compare keySchema lhs rhs = .ok _ :=
    fun lhs hlhs rhs hrhs => compare_eq hdecimal (hkeys lhs hlhs) (hkeys rhs hrhs)
  have hagree : ∀ lhs ∈ keys, ∀ rhs ∈ keys, Agree keySchema lhs rhs ↔ _ :=
    fun lhs hlhs rhs hrhs => agree_iff hdecimal (hkeys lhs hlhs) (hkeys rhs hrhs)
  constructor
  · intro h
    refine ⟨?_, ?_⟩
    · rintro _ ⟨lhs, hlhs, rfl⟩ _ ⟨rhs, hrhs, rfl⟩
      rw [← hagree lhs hlhs rhs hrhs, ← h.zero_iff lhs hlhs rhs hrhs, hcompare lhs hlhs rhs hrhs,
        Except.ok.injEq]
    · -- the sign is the same one by the determinism of the comparison
      rintro _ ⟨first, hfirst, rfl⟩ _ ⟨second, hsecond, rfl⟩ _ ⟨third, hthird, rfl⟩ hle hle'
      obtain ⟨sign, hsign, hok⟩ := h.trans first hfirst second hsecond third hthird _ hle _ hle'
        (hcompare first hfirst second hsecond) (hcompare second hsecond third hthird)
      rw [hcompare first hfirst third hthird] at hok
      exact (Except.ok.inj hok).trans_le hsign
  · intro h
    refine ⟨?_, ?_, ?_⟩
    · intro lhs hlhs rhs hrhs
      rw [hagree lhs hlhs rhs hrhs, hcompare lhs hlhs rhs hrhs, Except.ok.injEq]
      exact h.zero_iff _ (Set.mem_image_of_mem _ hlhs) _ (Set.mem_image_of_mem _ hrhs)
    · intro lhs hlhs rhs hrhs
      refine ⟨_, hcompare lhs hlhs rhs hrhs, ?_⟩
      rw [hcompare rhs hrhs lhs hlhs, compare_swap]
    · intro first hfirst second hsecond third hthird sign hle sign' hle' hok hok'
      rw [hcompare first hfirst second hsecond] at hok
      rw [hcompare second hsecond third hthird] at hok'
      cases hok
      cases hok'
      refine ⟨_, ?_, hcompare first hfirst third hthird⟩
      exact h.trans _ (Set.mem_image_of_mem _ hfirst) _ (Set.mem_image_of_mem _ hsecond) _
        (Set.mem_image_of_mem _ hthird) hle hle'

theorem distinguished_iff_separated :
    Distinguished keySchema keys ↔
      Separated KeyClass.Less (Set.image (classesOf keySchema) keys) ∧
        Acyclic KeyClass.Less (Set.image (classesOf keySchema) keys) := by
  have hagree : ∀ lhs ∈ keys, ∀ rhs ∈ keys, Agree keySchema lhs rhs ↔ _ :=
    fun lhs hlhs rhs hrhs => agree_iff hdecimal (hkeys lhs hlhs) (hkeys rhs hrhs)
  constructor
  · intro h
    refine ⟨?_, ?_⟩
    · rintro _ ⟨lhs, hlhs, rfl⟩ _ ⟨rhs, hrhs, rfl⟩
      rw [← hagree lhs hlhs rhs hrhs]
      exact h.separated lhs hlhs rhs hrhs
    · rintro _ ⟨first, hfirst, rfl⟩ _ ⟨second, hsecond, rfl⟩ _ ⟨third, hthird, rfl⟩
      exact h.acyclic first hfirst second hsecond third hthird
  · rintro ⟨hseparated, hacyclic⟩
    refine ⟨hkeys, ?_, ?_⟩
    · intro lhs hlhs rhs hrhs
      rw [hagree lhs hlhs rhs hrhs]
      exact hseparated _ (Set.mem_image_of_mem _ hlhs) _ (Set.mem_image_of_mem _ hrhs)
    · intro first hfirst second hsecond third hthird
      exact hacyclic _ (Set.mem_image_of_mem _ hfirst) _ (Set.mem_image_of_mem _ hsecond) _
        (Set.mem_image_of_mem _ hthird)

/-- Readable keys with their NULLs in the same columns are distinguished. -/
theorem distinguished_of_sameGaps
    (hgaps : ∀ lhs ∈ keys, ∀ rhs ∈ keys,
      SameGaps (classesOf keySchema lhs) (classesOf keySchema rhs)) :
    Distinguished keySchema keys := by
  rw [distinguished_iff_separated hdecimal hkeys]
  apply separated_of_sameGaps
  rintro _ ⟨lhs, hlhs, rfl⟩ _ ⟨rhs, hrhs, rfl⟩
  exact hgaps lhs hlhs rhs hrhs

end Readable

/-- The comparator orders keys exactly when they are distinguished. -/
theorem ordersKeys_iff_distinguished
    (hdecimal : ∀ typeId ∈ columnTypes keySchema, typeId ≠ .decimal) :
    OrdersKeys keySchema keys ↔ Distinguished keySchema keys := by
  have hiff : (∀ key ∈ keys, Readable keySchema key) →
      (OrdersKeys keySchema keys ↔ Distinguished keySchema keys) := by
    intro hkeys
    rw [ordersKeys_iff_orders hdecimal hkeys, distinguished_iff_separated hdecimal hkeys,
      orders_iff]
  constructor
  · exact fun h => (hiff (h.readable hdecimal)).mp h
  · exact fun h => (hiff h.readable).mpr h

end GenericComparator

end BusTub
