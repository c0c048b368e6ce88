import BusTub.Types.ComparisonOrder
import BusTub.Types.HashUtil

/-! # Hashes of equal values

A hash table needs equal values to have equal hashes. Integers of all types have them;
the hash of a VARCHAR covers its last byte, which the comparison leaves out, and the
bytes of an integer are not those of its text.
-/

namespace BusTub

namespace HashUtil

theorem signExtend_injective {byte byte' : UInt8} (h : signExtend byte = signExtend byte') :
    byte = byte' := by
  unfold signExtend at h
  have hwide : byte.toInt8.toInt64 = byte'.toInt8.toInt64 := congrArg UInt64.toInt64 h
  have hnarrow : byte.toInt8.toInt = byte'.toInt8.toInt := by
    rw [← Int8.toInt_toInt64, hwide, Int8.toInt_toInt64]
  exact congrArg Int8.toUInt8 (Int8.toInt.inj hnarrow)

/-- Of two byte strings that have but their last byte different, the hashes differ. -/
theorem hashBytes_append_iff (bytes : List UInt8) (byte byte' : UInt8) :
    hashBytes (bytes ++ [byte]) = hashBytes (bytes ++ [byte']) ↔ byte = byte' := by
  constructor
  · intro h
    unfold hashBytes at h
    rw [List.foldl_append, List.foldl_append, List.length_append, List.length_append] at h
    exact signExtend_injective ((UInt64.xor_right_inj _).mp h)
  · rintro rfl
    rfl

end HashUtil

namespace Value

variable [DoubleText] {left right : Value} {type type' : IntegerType} {i j : Int}
  {text text' : Varlen}

omit [DoubleText] in
theorem hashValue_of_integerContent (h : left.integerContent = some (type, i)) :
    HashUtil.hashValue left = .ok (HashUtil.hashInt i) := by
  cases left with
  | tinyint content => cases h; rfl
  | smallint content => cases h; rfl
  | integer content => cases h; rfl
  | bigint content => cases h; rfl
  | boolean content => cases h
  | decimal content => cases h
  | varchar content => cases h

omit [DoubleText] in
/-- A VARCHAR of a length that is taken is its text and its last byte. -/
theorem exists_data_eq (h : LengthTaken text) : ∃ byte, text.data = text.text ++ [byte] := by
  have hne : text.data ≠ [] := List.ne_nil_of_length_pos h.1
  refine ⟨text.data.getLast hne, ?_⟩
  unfold Varlen.text
  rw [← List.dropLast_eq_take, List.dropLast_append_getLast hne]

/-- Equal VARCHARs have equal hashes when they have the same last byte. -/
theorem hashValue_texts_iff (h : Relates .equal (.varchar (some text)) (.varchar (some text'))) :
    HashUtil.hashValue (.varchar (some text)) = HashUtil.hashValue (.varchar (some text')) ↔
      text.data.getLast? = text'.data.getLast? := by
  obtain ⟨htaken, htaken'⟩ := lengthTaken_of_relates h
  obtain ⟨byte, hdata⟩ := exists_data_eq htaken
  obtain ⟨byte', hdata'⟩ := exists_data_eq htaken'
  rw [(differ_texts htaken htaken').relates_equal, compareStrings_eq_zero_iff] at h
  have hhash : HashUtil.hashValue (.varchar (some text)) =
      HashUtil.hashValue (.varchar (some text')) ↔
      HashUtil.hashBytes text.data = HashUtil.hashBytes text'.data :=
    ⟨Except.ok.inj, congrArg Except.ok⟩
  rw [hhash, hdata, hdata', ← h, HashUtil.hashBytes_append_iff, List.getLast?_concat,
    List.getLast?_concat, Option.some.injEq]

/-- Equal integers have equal hashes, whatever their types are. -/
theorem hashValue_integers (hi : left.integerContent = some (type, i))
    (hj : right.integerContent = some (type', j)) (hsome : left.isNull = false)
    (hsome' : right.isNull = false) (h : Relates .equal left right) :
    HashUtil.hashValue left = HashUtil.hashValue right := by
  rw [(differ_integers hi hsome hj hsome').relates_equal, sub_eq_zero] at h
  rw [hashValue_of_integerContent hi, hashValue_of_integerContent hj, h]

/-- Both are integers, or both are VARCHARs with the same last byte. -/
inductive HashesMeet : Value → Value → Prop where
  | integers {left right : Value} {type type' : IntegerType} {i j : Int}
      (content : left.integerContent = some (type, i))
      (content' : right.integerContent = some (type', j)) : HashesMeet left right
  | texts {text text' : Varlen} (last : text.data.getLast? = text'.data.getLast?) :
      HashesMeet (.varchar (some text)) (.varchar (some text'))

/-- Both are VARCHARs, or none of them is. -/
def SameKind (left right : Value) : Prop :=
  left.getTypeId = .varchar ↔ right.getTypeId = .varchar

omit [DoubleText] in
theorem getTypeId_ne_varchar (h : left.integerContent = some (type, i)) :
    left.getTypeId ≠ .varchar := by
  rw [getTypeId_of_integerContent h]
  cases type <;> decide

/-- Equal values whose bytes meet have equal hashes. -/
theorem hashValue_of_hashesMeet (hleft : Comparand left) (hright : Comparand right)
    (h : Relates .equal left right) (hmeet : HashesMeet left right) :
    HashUtil.hashValue left = HashUtil.hashValue right := by
  cases hmeet with
  | integers content content' =>
      cases hleft with
      | integer hi hsome =>
          cases hright with
          | integer hj hsome' => exact hashValue_integers hi hj hsome hsome' h
          | text text => cases content'
      | text text => cases content
  | texts last => exact (hashValue_texts_iff h).mpr last

/-- Equal values have equal hashes if their bytes meet, and of two integers or two VARCHARs only
then. -/
theorem hashValue_eq_iff (hleft : Comparand left) (hright : Comparand right)
    (h : left.compareEquals right = .ok .cmpTrue) :
    (HashesMeet left right → HashUtil.hashValue left = HashUtil.hashValue right) ∧
    (SameKind left right →
      (HashUtil.hashValue left = HashUtil.hashValue right ↔ HashesMeet left right)) := by
  have hmeet := hashValue_of_hashesMeet hleft hright h
  refine ⟨hmeet, fun hkind => ⟨fun hhash => ?_, hmeet⟩⟩
  cases hleft with
  | integer hi hsome =>
      cases hright with
      | integer hj hsome' => exact .integers hi hj
      | text text => exact absurd (hkind.mpr rfl) (getTypeId_ne_varchar hi)
  | text text =>
      cases hright with
      | integer hj hsome' => exact absurd (hkind.mp rfl) (getTypeId_ne_varchar hj)
      -- the hash takes in the last byte of a VARCHAR, the comparison does not
      | text text' => exact .texts ((hashValue_texts_iff h).mp hhash)

/-- Of the VARCHARs of one text no two with different last bytes have the hash of an integer. -/
theorem getLast_eq_of_hashInt (htext : Relates .equal (.varchar (some text)) (.varchar (some text')))
    (h : HashUtil.hashBytes text.data = HashUtil.hashInt i)
    (h' : HashUtil.hashBytes text'.data = HashUtil.hashInt i) :
    text.data.getLast? = text'.data.getLast? :=
  (hashValue_texts_iff htext).mp (congrArg Except.ok (h.trans h'.symm))

omit [DoubleText] in
/-- The TINYINT `-5` and the BIGINT `-5` have one hash; the VARCHARs of the bytes `ab` and `ac`,
which are equal, have two. -/
theorem hashValue_eq_iff_minusFive :
    let ab : Varlen := ⟨textBytes "ab", by decide⟩
    let ac : Varlen := ⟨textBytes "ac", by decide⟩
    HashUtil.hashValue (.tinyint (-5)) = HashUtil.hashValue (.bigint (-5)) ∧
      HashUtil.hashValue (.varchar (some ab)) ≠ HashUtil.hashValue (.varchar (some ac)) := by
  intro ab ac
  let _ := noDoubleText
  refine ⟨(hashValue_eq_iff (.integer rfl rfl) (.integer rfl rfl) (by decide)).1
    (.integers rfl rfl), fun hhash => ?_⟩
  cases ((hashValue_eq_iff (.text ab) (.text ac) (by decide)).2 Iff.rfl).mp hhash with
  | integers content => cases content
  | texts last => exact absurd last (by decide)

omit [DoubleText] in
/-- The INTEGER `7` and the VARCHAR `7` are equal, and their hashes are not. -/
theorem hashValue_seven :
    @compareEquals noDoubleText (.integer 7) (ofText (textBytes "7")) = .ok .cmpTrue ∧
      HashUtil.hashValue (.integer 7) ≠ HashUtil.hashValue (ofText (textBytes "7")) := by
  constructor
  · decide
  · decide

end Value

end BusTub
