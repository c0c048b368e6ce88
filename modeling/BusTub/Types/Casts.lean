import BusTub.Types.IntegerText

/-! # Casts

`CastAs`. The casts of the integer types keep the number or find that there is no
place for it. A VARCHAR is read as an `int` for the narrow types: what is cut off there
goes unnoticed, and so does the least `int`.
-/

namespace BusTub

open WrapAround

/-- The conversion of doubles to integers. -/
class DoubleTruncation where
  toInt : Double → Int

/-- A conversion where no double is converted. -/
@[reducible] def noDoubleTruncation : DoubleTruncation where
  toInt _ := 0

namespace Value

theorem length_take_lt {bytes : List UInt8} {length : Nat} (h : length < valueNull) :
    (bytes.take length).length < valueNull :=
  lt_of_le_of_lt (List.length_take_le length bytes) h

/-- The constructor of a VARCHAR from a `std::string`: the length with the terminator is a
`uint32_t`. -/
def ofText (data : List UInt8) : Value :=
  let length := (data.length + 1) % 2 ^ 32
  if h : length < valueNull then .varchar (some ⟨(data ++ [0]).take length, length_take_lt h⟩)
  else .varchar none

section Casts

/-- The cast from an integer type to an integer type: a narrower one is checked. -/
def castInteger (type : IntegerType) (val : Value) (i : Int) (target : IntegerType) :
    Except EvalFault Value :=
  if val.isNull then .ok (target.value target.null)
  else if target.width < type.width ∧ ¬ target.InRange i then .error .outOfRange
  else .ok (target.value i)

variable [DoubleText]

/-- `CastAs` of the integer types. -/
def castIntegerAs (type : IntegerType) (val : Value) (i : Int) : TypeId → Except EvalFault Value
  | .tinyint => castInteger type val i .tinyint
  | .smallint => castInteger type val i .smallint
  | .integer => castInteger type val i .integer
  | .bigint => castInteger type val i .bigint
  | .decimal => .ok (.decimal (if val.isNull then decimalNull else Double.ofInt i))
  | .varchar => .ok (if val.isNull then .varchar none else ofText val.toString)
  | .boolean => .error .notCoercable

/-- `BooleanType::CastAs`. -/
def castBooleanAs (val : Value) : TypeId → Except EvalFault Value
  | .boolean => .ok val
  | .varchar => .ok (if val.isNull then .varchar none else ofText val.toString)
  | _ => .error .notCoercable

variable [DoubleTruncation]

/-- The cast from `DECIMAL` to an integer type. -/
def castDouble (val : Double) (target : IntegerType) : Except EvalFault Value :=
  if val = decimalNull then .ok (target.value target.null)
  else if (Double.ofInt (2 ^ (target.width - 1) - 1)).lt val ∨
      val.lt (Double.ofInt (-2 ^ (target.width - 1) + 1)) then .error .outOfRange
  else .ok (target.value (DoubleTruncation.toInt val))

/-- `DecimalType::CastAs`. -/
def castDoubleAs (val : Double) : TypeId → Except EvalFault Value
  | .tinyint => castDouble val .tinyint
  | .smallint => castDouble val .smallint
  | .integer => castDouble val .integer
  | .bigint => castDouble val .bigint
  | .decimal => .ok (.decimal val)
  | .varchar => .ok (if val = decimalNull then .varchar none else ofText (toString (.decimal val)))
  | .boolean => .error .notCoercable

/-- `VarlenType::CastAs`. -/
def castVarlenAs (val : Option Varlen) (typeId : TypeId) : Except EvalFault Value :=
  if typeId = .varchar then .ok (.varchar val) else castText (toString (.varchar val)) typeId

/-- `CastAs`. -/
def castAs (val : Value) (typeId : TypeId) : Except EvalFault Value :=
  match val with
  | .boolean _ => castBooleanAs val typeId
  | .tinyint value => castIntegerAs .tinyint val value.toInt typeId
  | .smallint value => castIntegerAs .smallint val value.toInt typeId
  | .integer value => castIntegerAs .integer val value.toInt typeId
  | .bigint value => castIntegerAs .bigint val value.toInt typeId
  | .decimal value => castDoubleAs value typeId
  | .varchar value => castVarlenAs value typeId

end Casts

/-! ## The number that a value denotes -/

/-- The integer that a value denotes: its content, or that of the literal which it holds. -/
def number? : Value → Option Int
  | .varchar (some text) => integerLiteral text.text
  | value => if value.isNull then none else value.integerContent.map Prod.snd

/-- A value of an integer type, or a VARCHAR with an integer literal, or NULL. -/
def HoldsInteger : Value → Prop
  | .varchar (some text) => (integerLiteral text.text).isSome = true
  | .varchar none => True
  | value => value.integerContent.isSome = true

end Value

/-- The type has a place for the number. -/
def TypeId.Holds : TypeId → Int → Prop
  | .tinyint, i => IntegerType.tinyint.InRange i
  | .smallint, i => IntegerType.smallint.InRange i
  | .integer, i => IntegerType.integer.InRange i
  | .bigint, i => IntegerType.bigint.InRange i
  | .varchar, _ => True
  | .boolean, _ | .decimal, _ => False

namespace Value

/-- What a cast is to return: NULL for NULL, otherwise the same number in the type, or an error
because the type has no place for it. -/
def KeepsNumber (val : Value) (typeId : TypeId) : Except EvalFault Value → Prop
  | .ok result => result.getTypeId = typeId ∧ result.isNull = val.isNull ∧
      result.number? = val.number?
  | .error fault => fault = .outOfRange ∧ val.isNull = false ∧
      ∀ i, val.number? = some i → ¬ typeId.Holds i

variable {val : Value} {type target : IntegerType} {i : Int} {text : Varlen}

theorem number?_of_integerContent (h : val.integerContent = some (type, i)) :
    val.number? = if val.isNull then none else some i := by
  have hmap : val.integerContent.map Prod.snd = some i := by
    rw [h]
    rfl
  rw [← hmap]
  cases val with
  | varchar content => cases h
  | boolean content => rfl
  | tinyint content => rfl
  | smallint content => rfl
  | integer content => rfl
  | bigint content => rfl
  | decimal content => rfl

theorem holds_typeId (type : IntegerType) (i : Int) : type.typeId.Holds i = type.InRange i := by
  cases type <;> rfl

theorem getTypeId_value (type : IntegerType) (i : Int) :
    (type.value i).getTypeId = type.typeId := by
  cases type <;> rfl

/-- A value built in a type denotes a number of its range. -/
theorem keepsNumber_value (hval : val.number? = some i) (hsome : val.isNull = false) :
    KeepsNumber val type.typeId (.ok (type.value i)) ↔ type.InRange i := by
  have hcontent := integerContent_value type i
  constructor
  · rintro ⟨-, hnull, hnumber⟩
    rw [hsome] at hnull
    rw [number?_of_integerContent hcontent, hnull, hval] at hnumber
    have hwrap : wrap type.width i = i := Option.some.inj hnumber
    rw [isNull_eq_false_iff hcontent, hwrap] at hnull
    exact hnull
  · intro hrange
    rw [wrap_of_fits type.width_pos hrange.fits] at hcontent
    have hnull := (isNull_eq_false_iff hcontent).mpr hrange
    refine ⟨getTypeId_value type i, hnull.trans hsome.symm, ?_⟩
    rw [number?_of_integerContent hcontent, hnull, hval]
    rfl

theorem keepsNumber_outOfRange (hval : val.number? = some i) (hsome : val.isNull = false) :
    KeepsNumber val type.typeId (.error .outOfRange) ↔ ¬ type.InRange i := by
  constructor
  · rintro ⟨-, -, hnot⟩
    rw [← holds_typeId]
    exact hnot i hval
  · intro hrange
    refine ⟨rfl, hsome, ?_⟩
    intro j hj
    rw [hval, Option.some.injEq] at hj
    rw [← hj, holds_typeId]
    exact hrange

/-! ## Casts of integers -/

section Integers

variable [DoubleText] [DoubleTruncation]

theorem castAs_of_integerContent (h : val.integerContent = some (type, i)) (typeId : TypeId) :
    castAs val typeId = castIntegerAs type val i typeId := by
  cases val with
  | tinyint content => cases h; rfl
  | smallint content => cases h; rfl
  | integer content => cases h; rfl
  | bigint content => cases h; rfl
  | boolean content => cases h
  | decimal content => cases h
  | varchar content => cases h

omit [DoubleTruncation] in
theorem castIntegerAs_typeId (type target : IntegerType) (val : Value) (i : Int) :
    castIntegerAs type val i target.typeId = castInteger type val i target := by
  cases target <;> rfl

omit [DoubleTruncation] in
theorem toString_of_integerContent (h : val.integerContent = some (type, i))
    (hsome : val.isNull = false) : val.toString = textBytes s!"{i}" := by
  cases val with
  | tinyint content => cases h; exact if_neg (beq_eq_false_iff_ne.mp hsome)
  | smallint content => cases h; exact if_neg (beq_eq_false_iff_ne.mp hsome)
  | integer content => cases h; exact if_neg (beq_eq_false_iff_ne.mp hsome)
  | bigint content => cases h; exact if_neg (beq_eq_false_iff_ne.mp hsome)
  | boolean content => cases h
  | decimal content => cases h
  | varchar content => cases h

omit [DoubleText] [DoubleTruncation] in
/-- A cast between integer types keeps the number. -/
theorem castInteger_keepsNumber (h : val.integerContent = some (type, i)) (target : IntegerType) :
    KeepsNumber val target.typeId (castInteger type val i target) := by
  have hnumber := number?_of_integerContent h
  unfold castInteger
  by_cases hnull : val.isNull = true
  · rw [if_pos hnull] at hnumber ⊢
    -- a null of one type becomes the null of the other
    have hcontent := integerContent_value target target.null
    have hleast : Fits target.width target.null :=
      ⟨le_refl _, (neg_neg_of_pos (half_pos target.width)).trans (half_pos target.width)⟩
    rw [wrap_of_fits target.width_pos hleast] at hcontent
    have hresult := (isNull_eq_true_iff hcontent).mpr rfl
    refine ⟨getTypeId_value target target.null, hresult.trans hnull.symm, ?_⟩
    rw [number?_of_integerContent hcontent, if_pos hresult, hnumber]
  · rw [if_neg hnull] at hnumber ⊢
    have hsome := Bool.eq_false_iff.mpr hnull
    have hrange := (isNull_eq_false_iff h).mp hsome
    split
    next hnarrow => exact (keepsNumber_outOfRange hnumber hsome).mpr hnarrow.2
    next hnarrow =>
      apply (keepsNumber_value hnumber hsome).mpr
      -- without a check the target is as wide as the type, so that the number is in range
      by_contra hout
      apply hnarrow
      refine ⟨?_, hout⟩
      by_contra hwide
      exact hout (hrange.mono (not_lt.mp hwide))

omit [DoubleText] [DoubleTruncation] in
/-- The text of an integer is short. -/
theorem length_textBytes_lt (h : Fits 64 i) : (textBytes s!"{i}").length < 2 ^ 32 - 2 := by
  obtain ⟨hlow, hhigh⟩ := h
  have hdigits : ∀ n : Nat, n < 10 ^ 20 → (digitBytes n).length ≤ 20 := by
    intro n hn
    unfold digitBytes
    rw [List.length_map]
    exact (Nat.length_toDigits_le_iff (by decide) (by decide)).mpr hn
  cases i with
  | ofNat n =>
      have hlt : (n : Int) < 2 ^ (64 - 1) := hhigh
      have hshort := hdigits n (by omega)
      rw [Int.ofNat_eq_natCast, textBytes_natCast]
      omega
  | negSucc n =>
      have hshort := hdigits (n + 1) (by omega)
      rw [textBytes_negSucc, List.length_cons]
      omega

omit [DoubleText] [DoubleTruncation] in
/-- A text that is not too long is what the VARCHAR holds. -/
theorem ofText_eq {data : List UInt8} (h : data.length < 2 ^ 32 - 2) :
    ∃ text : Varlen, ofText data = .varchar (some text) ∧ text.text = data := by
  have hmod : (data.length + 1) % 2 ^ 32 = data.length + 1 := Nat.mod_eq_of_lt (by omega)
  have hlt : data.length + 1 < valueNull := by
    unfold valueNull
    omega
  refine ⟨⟨(data ++ [0]).take (data.length + 1), length_take_lt hlt⟩, ?_, ?_⟩
  · unfold ofText
    simp only [hmod]
    rw [dif_pos hlt]
  · have hlength : (data ++ [0]).length ≤ data.length + 1 := by simp
    unfold Varlen.text
    simp only [List.take_of_length_le hlength]
    simp

omit [DoubleTruncation] in
/-- The cast of an integer to a VARCHAR, and the number that is read from it. -/
theorem castIntegerAs_varchar (h : val.integerContent = some (type, i))
    (hsome : val.isNull = false) :
    ∃ text : Varlen, castIntegerAs type val i .varchar = .ok (.varchar (some text)) ∧
      integerLiteral text.text = some i := by
  have hwide : type.width ≤ 64 := by cases type <;> decide
  have hfits : Fits 64 i := (fits_of_integerContent h).mono hwide
  obtain ⟨text, hvalue, htext⟩ := ofText_eq (length_textBytes_lt hfits)
  refine ⟨text, ?_, ?_⟩
  · rw [← toString_of_integerContent h hsome] at hvalue
    rw [← hvalue]
    unfold castIntegerAs
    rw [hsome]
    rfl
  · rw [htext]
    exact integerLiteral_textBytes i

end Integers

/-! ## Casts of texts -/

/-- What the cast of a text makes of the number that is read: it is converted, and `INTEGER`
does without the check of the result. -/
def narrowed (type : IntegerType) (n : Int) : Except EvalFault Value :=
  if type = .integer ∨ wrap type.width n ≠ type.null then .ok (type.value n)
  else .error .outOfRange

theorem lt_least_iff (type : IntegerType) (n : Int) :
    wrap type.width n < -2 ^ (type.width - 1) + 1 ↔ wrap type.width n = type.null := by
  obtain ⟨hlow, -⟩ := fits_wrap type.width_pos n
  unfold IntegerType.null
  constructor
  · intro h
    omega
  · intro h
    omega

theorem narrowed_tinyint (n : Int) :
    narrowed .tinyint n = if (Int8.ofInt n).toInt < -127 then .error .outOfRange
      else .ok (.tinyint (Int8.ofInt n)) := by
  have hleast : (Int8.ofInt n).toInt < -127 ↔ wrap 8 n = -128 := by
    rw [Int8.toInt_ofInt]
    exact lt_least_iff .tinyint n
  simp only [hleast]
  exact (ite_not _ _ _).symm.trans (if_congr (by simp [IntegerType.width, IntegerType.null]) rfl rfl)

theorem narrowed_smallint (n : Int) :
    narrowed .smallint n = if (Int16.ofInt n).toInt < -32767 then .error .outOfRange
      else .ok (.smallint (Int16.ofInt n)) := by
  have hleast : (Int16.ofInt n).toInt < -32767 ↔ wrap 16 n = -32768 := by
    rw [Int16.toInt_ofInt]
    exact lt_least_iff .smallint n
  simp only [hleast]
  exact (ite_not _ _ _).symm.trans (if_congr (by simp [IntegerType.width, IntegerType.null]) rfl rfl)

section Texts

variable [DoubleText]

/-- The cast of a text to an integer type: it is read as an `int` at least. -/
theorem castText_integer (str : List UInt8) (type : IntegerType) :
    castText str type.typeId = (stringToInt (max 32 type.width) str).bind (narrowed type) := by
  cases type with
  | tinyint => exact congrArg (stringToInt 32 str).bind (funext fun n => (narrowed_tinyint n).symm)
  | smallint =>
      exact congrArg (stringToInt 32 str).bind (funext fun n => (narrowed_smallint n).symm)
  | integer => rfl
  | bigint =>
      -- BIGINT checks the number that is read and the other types the one that is narrowed
      have hcast : castText str .bigint = (stringToInt 64 str).bind fun n =>
          if n > 2 ^ 63 - 1 ∨ n < -2 ^ 63 + 1 then .error .outOfRange
          else .ok (.bigint (Int64.ofInt n)) := rfl
      have hmax : max 32 IntegerType.bigint.width = 64 := rfl
      refine hcast.trans ?_
      rw [hmax]
      cases hread : stringToInt 64 str with
      | error fault => rfl
      | ok n =>
          obtain ⟨hlow, hhigh⟩ := (fits_of_stringToInt hread).2
          have hwrap : wrap 64 n = n := wrap_of_fits (by decide) ⟨hlow, hhigh⟩
          have hcheck : n > 2 ^ 63 - 1 ∨ n < -2 ^ 63 + 1 ↔
              ¬ (IntegerType.bigint = .integer ∨ wrap 64 n ≠ -2 ^ 63) := by
            rw [hwrap]
            simp only [reduceCtorEq, false_or, ne_eq, not_not]
            constructor
            · intro h
              omega
            · intro h
              omega
          exact (if_congr hcheck rfl rfl).trans (ite_not _ _ _)

/-- A literal is converted if it is an `int`, and checked. -/
theorem castText_of_literal {str : List UInt8} (h : integerLiteral str = some i)
    (type : IntegerType) :
    castText str type.typeId =
      if Fits (max 32 type.width) i then narrowed type i else .error .outOfRange := by
  rw [castText_integer, stringToInt_of_literal h]
  split <;> rfl

/-- The numbers that the cast of a literal to an integer type takes for what they are, or
refuses: those of the range, those that are no `int` (or no `long long`, for `BIGINT`), and those
of which the least number of the type is left, where that is checked. -/
def ReadSafely (type : IntegerType) (i : Int) : Prop :=
  type.InRange i ∨ ¬ Fits (max 32 type.width) i ∨
    (type ≠ .integer ∧ (2 : Int) ^ type.width ∣ i - type.null)

omit [DoubleText] in
theorem wrap_eq_null_iff (type : IntegerType) (i : Int) :
    wrap type.width i = type.null ↔ (2 : Int) ^ type.width ∣ i - type.null := by
  rw [wrap_eq_iff type.width_pos]
  apply and_iff_right
  exact ⟨le_refl _, (neg_neg_of_pos (half_pos type.width)).trans (half_pos type.width)⟩

/-- The cast of a literal keeps the number exactly if it is read safely. -/
theorem castText_keepsNumber_iff {str : List UInt8} (h : integerLiteral str = some i)
    (hnumber : val.number? = some i) (hsome : val.isNull = false) (type : IntegerType) :
    KeepsNumber val type.typeId (castText str type.typeId) ↔ ReadSafely type i := by
  have hread : type.InRange i → Fits (max 32 type.width) i :=
    fun hrange => hrange.fits.mono (le_max_right _ _)
  have hleast : type.InRange i → wrap type.width i ≠ type.null := by
    intro hrange
    rw [wrap_of_fits type.width_pos hrange.fits]
    exact (balanced_iff.mp hrange).2
  rw [castText_of_literal h]
  unfold ReadSafely
  rw [← wrap_eq_null_iff]
  by_cases hfits : Fits (max 32 type.width) i
  · rw [if_pos hfits]
    unfold narrowed
    split
    next hok =>
      rw [keepsNumber_value hnumber hsome]
      constructor
      · exact Or.inl
      · rintro (hrange | hnot | ⟨hne, hnull⟩)
        · exact hrange
        · exact absurd hfits hnot
        · rcases hok with rfl | hok
          · exact absurd rfl hne
          · exact absurd hnull hok
    -- the number read wraps around to the null of the type
    next hbad =>
      rw [not_or, ne_eq, not_not] at hbad
      rw [keepsNumber_outOfRange hnumber hsome]
      refine iff_of_true (fun hrange => hleast hrange hbad.2) (Or.inr (Or.inr hbad))
  · rw [if_neg hfits, keepsNumber_outOfRange hnumber hsome]
    exact iff_of_true (fun hrange => hfits (hread hrange)) (Or.inr (Or.inl hfits))

end Texts

/-! ## The casts between the integer types and VARCHAR -/

/-- A cast of a VARCHAR to an integer type finds a number that is read safely. -/
def CastSafe (val : Value) (typeId : TypeId) : Prop :=
  ∀ content, val = .varchar content → ∀ type : IntegerType, typeId = type.typeId →
    ∃ text, content = some text ∧ ∀ i, integerLiteral text.text = some i → ReadSafely type i

theorem typeId_cases {typeId : TypeId} (hboolean : typeId ≠ .boolean)
    (hdecimal : typeId ≠ .decimal) :
    typeId = .varchar ∨ ∃ type : IntegerType, typeId = type.typeId := by
  cases typeId with
  | boolean => exact absurd rfl hboolean
  | tinyint => exact Or.inr ⟨.tinyint, rfl⟩
  | smallint => exact Or.inr ⟨.smallint, rfl⟩
  | integer => exact Or.inr ⟨.integer, rfl⟩
  | bigint => exact Or.inr ⟨.bigint, rfl⟩
  | decimal => exact absurd rfl hdecimal
  | varchar => exact Or.inl rfl

theorem castSafe_varchar (val : Value) : CastSafe val .varchar := by
  intro content _ type htype
  cases type <;> cases htype

variable [DoubleText] [DoubleTruncation]

theorem castAs_integer_keepsNumber (h : val.integerContent = some (type, i)) {typeId : TypeId}
    (hboolean : typeId ≠ .boolean) (hdecimal : typeId ≠ .decimal) :
    KeepsNumber val typeId (castAs val typeId) := by
  rw [castAs_of_integerContent h]
  rcases typeId_cases hboolean hdecimal with rfl | ⟨target, rfl⟩
  · cases hnull : val.isNull with
    | true =>
        have hcast : castIntegerAs type val i .varchar = .ok (.varchar none) := by
          unfold castIntegerAs
          rw [hnull]
          rfl
        rw [hcast]
        refine ⟨rfl, hnull.symm, ?_⟩
        rw [number?_of_integerContent h, hnull]
        rfl
    | false =>
        obtain ⟨text, hcast, hliteral⟩ := castIntegerAs_varchar h hnull
        rw [hcast]
        refine ⟨rfl, hnull.symm, ?_⟩
        rw [number?_of_integerContent h, hnull]
        exact hliteral
  · rw [castIntegerAs_typeId]
    exact castInteger_keepsNumber h target

theorem castAs_varlen_keepsNumber_iff {content : Option Varlen}
    (hholds : HoldsInteger (.varchar content)) {typeId : TypeId} (hboolean : typeId ≠ .boolean)
    (hdecimal : typeId ≠ .decimal) :
    KeepsNumber (.varchar content) typeId (castAs (.varchar content) typeId) ↔
      CastSafe (.varchar content) typeId := by
  rcases typeId_cases hboolean hdecimal with rfl | ⟨type, rfl⟩
  · exact iff_of_true ⟨rfl, rfl, rfl⟩ (castSafe_varchar _)
  · have hcast : castAs (.varchar content) type.typeId =
        castText (toString (.varchar content)) type.typeId := by
      cases type <;> rfl
    have hunique : ∀ other : IntegerType, type.typeId = other.typeId → type = other := by
      intro other heq
      cases type <;> cases other <;> first | rfl | cases heq
    rw [hcast]
    cases content with
    | none =>
        apply iff_of_false
        · -- the text of a null string is not a number
          have hread : ∀ width, stringToInt width (textBytes "varlen_null") =
              .error .invalidArgument := fun _ => rfl
          have htext : toString (.varchar none) = textBytes "varlen_null" := rfl
          rw [htext, castText_integer, hread]
          intro h
          cases h.1
        · intro hsafe
          obtain ⟨text, htext, -⟩ := hsafe none rfl type rfl
          cases htext
    | some text =>
        obtain ⟨i, hi⟩ := Option.isSome_iff_exists.mp hholds
        have htext : toString (.varchar (some text)) = text.text := rfl
        have hnumber : number? (.varchar (some text)) = some i := hi
        rw [htext, castText_keepsNumber_iff hi hnumber rfl]
        constructor
        · intro hsafe content hcontent other hother
          cases hcontent
          refine ⟨text, rfl, ?_⟩
          intro j hj
          rw [hi, Option.some.injEq] at hj
          rw [← hj, ← hunique other hother]
          exact hsafe
        · intro hsafe
          obtain ⟨text', heq, hread⟩ := hsafe _ rfl type rfl
          cases heq
          exact hread i hi

/-- An integer becomes a text and the same integer again. -/
theorem castAs_roundTrip (h : val.integerContent = some (type, i)) (hsome : val.isNull = false) :
    ∃ text, castAs val .varchar = .ok text ∧ castAs text type.typeId = .ok val := by
  obtain ⟨text, hcast, hliteral⟩ := castIntegerAs_varchar h hsome
  have hrange := (isNull_eq_false_iff h).mp hsome
  refine ⟨.varchar (some text), ?_, ?_⟩
  · rw [castAs_of_integerContent h]
    exact hcast
  · have hback : castAs (.varchar (some text)) type.typeId = castText text.text type.typeId := by
      cases type <;> rfl
    rw [hback, castText_of_literal hliteral, if_pos (hrange.fits.mono (le_max_right _ _)),
      eq_value_of_integerContent h]
    apply if_pos
    right
    rw [wrap_of_fits type.width_pos hrange.fits]
    exact (balanced_iff.mp hrange).2

/-- Casts keep the number exactly when a VARCHAR that is cast to an integer type holds a number
which is read safely. -/
theorem castAs_keepsNumber_iff :
    (∀ (val : Value) (typeId : TypeId), val.HoldsInteger → typeId ≠ .boolean →
      typeId ≠ .decimal → (KeepsNumber val typeId (castAs val typeId) ↔ CastSafe val typeId)) ∧
    ∀ (val : Value) (type : IntegerType) (i : Int), val.integerContent = some (type, i) →
      val.isNull = false →
      ∃ text, castAs val .varchar = .ok text ∧ castAs text type.typeId = .ok val := by
  refine ⟨?_, fun val type i h hsome => castAs_roundTrip h hsome⟩
  intro val typeId hholds hboolean hdecimal
  have hinteger : ∀ content, val.integerContent = some content →
      (KeepsNumber val typeId (castAs val typeId) ↔ CastSafe val typeId) := by
    intro content hcontent
    apply iff_of_true (castAs_integer_keepsNumber hcontent hboolean hdecimal)
    intro text htext
    rw [htext] at hcontent
    cases hcontent
  cases val with
  | tinyint content => exact hinteger _ rfl
  | smallint content => exact hinteger _ rfl
  | integer content => exact hinteger _ rfl
  | bigint content => exact hinteger _ rfl
  | varchar content => exact castAs_varlen_keepsNumber_iff hholds hboolean hdecimal
  | boolean content => cases hholds
  | decimal content => cases hholds

omit [DoubleText] [DoubleTruncation] in
/-- The INTEGER `70000` is no SMALLINT, and its text is the integer again. -/
theorem castAs_keepsNumber_iff_seventyThousand :
    let _ := noDoubleText
    let _ := noDoubleTruncation
    KeepsNumber (.integer 70000) .smallint (castAs (.integer 70000) .smallint) ∧
      castAs (.integer 70000) .smallint = .error .outOfRange ∧
      ∃ text, castAs (.integer 70000) .varchar = .ok text ∧
        castAs text .integer = .ok (.integer 70000) := by
  intro _ _
  refine ⟨?_, rfl, castAs_keepsNumber_iff.2 (.integer 70000) .integer 70000 rfl rfl⟩
  apply (castAs_keepsNumber_iff.1 (.integer 70000) .smallint rfl (by decide) (by decide)).mpr
  intro content hcontent
  cases hcontent

omit [DoubleText] [DoubleTruncation] in
/-- The VARCHAR `300` becomes the TINYINT `44`. -/
theorem castAs_threeHundred :
    let cast := @castAs noDoubleText noDoubleTruncation (ofText (textBytes "300")) .tinyint
    HoldsInteger (ofText (textBytes "300")) ∧ cast = .ok (.tinyint 44) ∧
      ¬ KeepsNumber (ofText (textBytes "300")) .tinyint cast := by
  intro cast
  have hcast : cast = .ok (.tinyint 44) := by decide
  refine ⟨rfl, hcast, ?_⟩
  rw [hcast]
  intro h
  exact absurd h.2.2 (by decide)

end Value

end BusTub
