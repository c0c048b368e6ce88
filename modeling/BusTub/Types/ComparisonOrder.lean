import BusTub.Types.Casts
import Mathlib.Data.Set.Defs

/-! # The order of the comparisons

Every comparison asks for the sign of a difference: of two numbers when the left
value is an integer, of two texts when it is a VARCHAR. The order is consistent on
values where it does not matter which of them is on the left.
-/

namespace BusTub

open WrapAround

namespace Value

theorem getCmpBool_eq_true_iff {b : Bool} :
    (.ok (getCmpBool b) : Except EvalFault CmpBool) = .ok .cmpTrue ↔ b = true := by
  cases b
  · exact iff_of_false nofun nofun
  · exact iff_of_true rfl rfl

/-! ## The order of texts -/

/-- The sign of the result is the order of the bytes. -/
theorem compareStrings_cases (left right : List UInt8) :
    (compareStrings left right < 0 ∧ left < right) ∨
      (compareStrings left right = 0 ∧ left = right) ∨
      (0 < compareStrings left right ∧ right < left) := by
  induction left generalizing right with
  | nil =>
      cases right with
      | nil => exact Or.inr (Or.inl ⟨rfl, rfl⟩)
      | cons y right =>
          left
          refine ⟨?_, List.nil_lt_cons y right⟩
          -- one string is a prefix of the other, and the lengths decide
          rw [compareStrings, List.length_cons]
          · omega
          · exact nofun
  | cons x left ih =>
      cases right with
      | nil =>
          right
          right
          refine ⟨?_, List.nil_lt_cons x left⟩
          rw [compareStrings, List.length_cons]
          · omega
          · exact nofun
      | cons y right =>
          rw [compareStrings, List.cons_lt_cons_iff, List.cons_lt_cons_iff, List.cons.injEq]
          by_cases hxy : x = y
          · subst hxy
            -- the first bytes agree, so that the rest decides
            simpa using ih right
          · rw [if_neg hxy]
            by_cases hlt : x < y
            · rw [if_pos hlt]
              exact Or.inl ⟨by decide, Or.inl hlt⟩
            · rw [if_neg hlt]
              have hgt : y < x := UInt8.lt_of_le_of_ne (UInt8.not_lt.mp hlt) (Ne.symm hxy)
              exact Or.inr (Or.inr ⟨by decide, Or.inl hgt⟩)

theorem compareStrings_eq_zero_iff {left right : List UInt8} :
    compareStrings left right = 0 ↔ left = right := by
  constructor
  · intro h
    rcases compareStrings_cases left right with ⟨hneg, -⟩ | ⟨-, heq⟩ | ⟨hpos, -⟩
    · omega
    · exact heq
    · omega
  · rintro rfl
    rcases compareStrings_cases left left with ⟨-, hlt⟩ | ⟨hzero, -⟩ | ⟨-, hlt⟩
    · exact absurd hlt (List.lt_irrefl left)
    · exact hzero
    · exact absurd hlt (List.lt_irrefl left)

theorem compareStrings_neg_iff {left right : List UInt8} :
    compareStrings left right < 0 ↔ left < right := by
  constructor
  · intro h
    rcases compareStrings_cases left right with ⟨-, hlt⟩ | ⟨hzero, -⟩ | ⟨hpos, -⟩
    · exact hlt
    · omega
    · omega
  · intro h
    rcases compareStrings_cases left right with ⟨hneg, -⟩ | ⟨-, rfl⟩ | ⟨-, hlt⟩
    · exact hneg
    · exact absurd h (List.lt_irrefl left)
    · exact absurd h (List.lt_asymm hlt)

theorem compareStrings_pos_iff {left right : List UInt8} :
    0 < compareStrings left right ↔ right < left := by
  constructor
  · intro h
    rcases compareStrings_cases left right with ⟨hneg, -⟩ | ⟨hzero, -⟩ | ⟨-, hlt⟩
    · omega
    · omega
    · exact hlt
  · intro h
    rcases compareStrings_cases left right with ⟨-, hlt⟩ | ⟨-, rfl⟩ | ⟨hpos, -⟩
    · exact absurd h (List.lt_asymm hlt)
    · exact absurd h (List.lt_irrefl left)
    · exact hpos

/-! ## What a comparison looks at -/

/-- The operands: values of an integer type and VARCHARs, none of them NULL. -/
inductive Comparand : Value → Prop where
  | integer {value : Value} {type : IntegerType} {i : Int}
      (content : value.integerContent = some (type, i)) (some : value.isNull = false) :
      Comparand value
  | text (text : Varlen) : Comparand (.varchar (some text))

/-- The number that an integer type takes a VARCHAR for. -/
def readAs (type : IntegerType) (text : Varlen) : Int :=
  wrap type.width ((leadingInteger text.text).getD 0)

/-- `CompareStrings` has lengths that it takes. -/
def LengthTaken (text : Varlen) : Prop := 0 < text.data.length ∧ text.data.length ≤ 2 ^ 31

variable [DoubleText] {left right : Value} {type type' : IntegerType} {i j : Int}
  {text text' : Varlen}

/-- Every comparison of the two values is one of the number with zero. -/
def Differ (left right : Value) (difference : Int) : Prop :=
  ∀ op, compare op left right = .ok (getCmpBool (op.int difference 0))

omit [DoubleText] in
theorem int_sub (op : ComparisonType) (i j : Int) : op.int i j = op.int (i - j) 0 := by
  cases op <;> simp [ComparisonType.int, sub_eq_zero, bne, beq_eq_decide]

theorem compare_of_integer (op : ComparisonType) (hleft : left.integerContent = some (type, i))
    (hsome : left.isNull = false) (hright : right.isNull = false)
    (hboolean : right.getTypeId ≠ .boolean) :
    compare op left right = compareInt op type.typeId i right := by
  have hcheck : left.checkComparable right = true := by
    unfold checkComparable
    rw [getTypeId_of_integerContent hleft]
    cases type <;> exact bne_iff_ne.mpr hboolean
  unfold compare
  rw [hcheck, hsome, hright]
  cases left with
  | tinyint content => cases hleft; rfl
  | smallint content => cases hleft; rfl
  | integer content => cases hleft; rfl
  | bigint content => cases hleft; rfl
  | boolean content => cases hleft
  | decimal content => cases hleft
  | varchar content => cases hleft

theorem differ_integers (hleft : left.integerContent = some (type, i))
    (hsome : left.isNull = false) (hright : right.integerContent = some (type', j))
    (hright' : right.isNull = false) : Differ left right (i - j) := by
  intro op
  have hboolean : right.getTypeId ≠ .boolean := by
    rw [getTypeId_of_integerContent hright]
    cases type' <;> simp [IntegerType.typeId]
  rw [compare_of_integer op hleft hsome hright' hboolean, ← int_sub]
  cases right with
  | tinyint content => cases hright; rfl
  | smallint content => cases hright; rfl
  | integer content => cases hright; rfl
  | bigint content => cases hright; rfl
  | boolean content => cases hright
  | decimal content => cases hright
  | varchar content => cases hright

omit [DoubleText] in
theorem integerContent_readAs {value : Value} [DoubleText]
    (hcast : castText text.text type.typeId = .ok value) :
    value.integerContent = some (type, readAs type text) := by
  rw [castText_integer] at hcast
  cases hread : stringToInt (max 32 type.width) text.text with
  | error fault =>
      rw [hread] at hcast
      cases hcast
  | ok n =>
      rw [hread] at hcast
      obtain ⟨hlead, -⟩ := fits_of_stringToInt hread
      have hnarrowed : narrowed type n = .ok value := hcast
      unfold narrowed at hnarrowed
      unfold readAs
      rw [hlead, Option.getD_some]
      split at hnarrowed
      next =>
        cases hnarrowed
        exact integerContent_value type n
      next => cases hnarrowed

/-- An integer is compared with the number that the VARCHAR is taken for. -/
theorem differ_integer_text {value : Value} (hleft : left.integerContent = some (type, i))
    (hsome : left.isNull = false) (hcast : castText text.text type.typeId = .ok value) :
    Differ left (.varchar (some text)) (i - readAs type text) := by
  intro op
  have hcontent := integerContent_readAs hcast
  have hread : castText (toString (.varchar (some text))) type.typeId = .ok value := hcast
  rw [compare_of_integer op hleft hsome rfl (by simp [getTypeId]), ← int_sub, compareInt, hread]
  generalize readAs type text = n at hcontent ⊢
  cases value with
  | tinyint content => cases hcontent; rfl
  | smallint content => cases hcontent; rfl
  | integer content => cases hcontent; rfl
  | bigint content => cases hcontent; rfl
  | boolean content => cases hcontent
  | decimal content => cases hcontent
  | varchar content => cases hcontent

omit [DoubleText] in
theorem comparedText_eq (h : LengthTaken text) : text.comparedText = .ok text.text := if_pos h

omit [DoubleText] in
theorem lengthTaken_of_comparedText {str : List UInt8} (h : text.comparedText = .ok str) :
    LengthTaken text := by
  unfold Varlen.comparedText at h
  split at h
  next htaken => exact htaken
  next => cases h

/-- A VARCHAR is compared with the text of the integer. -/
theorem differ_text_integer (htaken : LengthTaken text)
    (hright : right.integerContent = some (type, i)) (hsome : right.isNull = false) :
    Differ (.varchar (some text)) right (compareStrings text.text (textBytes s!"{i}")) := by
  intro op
  rw [← toString_of_integerContent hright hsome]
  have hcheck : checkComparable (.varchar (some text)) right = true := rfl
  have hnull : isNull (.varchar (some text)) = false := rfl
  have hcompare : compare op (.varchar (some text)) right = compareVarlen op text right := by
    unfold compare
    rw [hcheck, hnull, hsome]
    rfl
  rw [hcompare]
  cases right with
  | varchar content => cases hright
  | _ =>
      unfold compareVarlen
      rw [comparedText_eq htaken]
      rfl

theorem differ_texts (htaken : LengthTaken text) (htaken' : LengthTaken text') :
    Differ (.varchar (some text)) (.varchar (some text'))
      (compareStrings text.text text'.text) := by
  intro op
  change compareVarlen op text (.varchar (some text')) = _
  rw [compareVarlen, comparedText_eq htaken, comparedText_eq htaken']
  rfl

/-! ## Consistent orders -/

/-- A comparison is true. -/
def Relates (op : ComparisonType) (left right : Value) : Prop :=
  compare op left right = .ok .cmpTrue

/-- The laws of an order for three values. -/
structure ConsistentAt (a b c : Value) : Prop where
  trichotomy :
    (Relates .lessThan a b ∧ ¬ Relates .equal a b ∧ ¬ Relates .greaterThan a b) ∨
      (¬ Relates .lessThan a b ∧ Relates .equal a b ∧ ¬ Relates .greaterThan a b) ∨
      (¬ Relates .lessThan a b ∧ ¬ Relates .equal a b ∧ Relates .greaterThan a b)
  lessEquals : Relates .lessThanOrEqual a b ↔ Relates .lessThan a b ∨ Relates .equal a b
  greaterEquals : Relates .greaterThanOrEqual a b ↔ Relates .greaterThan a b ∨ Relates .equal a b
  notEquals : Relates .notEqual a b ↔ ¬ Relates .equal a b
  swap : Relates .lessThan a b ↔ Relates .greaterThan b a
  trans : Relates .lessThan a b → Relates .lessThan b c → Relates .lessThan a c

/-- The laws for any three of some values. -/
def Consistent (values : Set Value) : Prop :=
  ∀ a ∈ values, ∀ b ∈ values, ∀ c ∈ values, ConsistentAt a b c

/-- No conversion between some values throws. -/
def Convertible (values : Set Value) : Prop :=
  ∀ value ∈ values, ∀ type i, value.integerContent = some (type, i) →
    ∀ text, Value.varchar (some text) ∈ values →
      ∃ result, castText text.text type.typeId = .ok result

/-- Two integers in their order, with a reading of one VARCHAR below the first one and a reading
above the second one; one of the three gaps may be missing. -/
def Crossed (below i j above : Int) : Prop :=
  below ≤ i ∧ i ≤ j ∧ j ≤ above ∧
    ((below < i ∧ i < j) ∨ (i < j ∧ j < above) ∨ (below < i ∧ j < above))

omit [DoubleText] in
/-- What makes the order of some values one order. -/
structure OneOrder (values : Set Value) : Prop where
  lengths : ∀ text, Value.varchar (some text) ∈ values → LengthTaken text
  sides : ∀ value ∈ values, ∀ type i, value.integerContent = some (type, i) →
    ∀ text, Value.varchar (some text) ∈ values →
      (i < readAs type text ↔ textBytes s!"{i}" < text.text) ∧
      (readAs type text < i ↔ text.text < textBytes s!"{i}")
  readings : ∀ first ∈ values, ∀ type i, first.integerContent = some (type, i) →
    ∀ second ∈ values, ∀ type' j, second.integerContent = some (type', j) →
      ∀ text, Value.varchar (some text) ∈ values →
        ¬ Crossed (readAs type text) i j (readAs type' text)

theorem Differ.relates_iff {difference : Int} (h : Differ left right difference)
    (op : ComparisonType) : Relates op left right ↔ op.int difference 0 = true := by
  unfold Relates
  rw [h op]
  exact getCmpBool_eq_true_iff

theorem Differ.relates_lessThan {difference : Int} (h : Differ left right difference) :
    Relates .lessThan left right ↔ difference < 0 :=
  (h.relates_iff .lessThan).trans decide_eq_true_iff

theorem Differ.relates_greaterThan {difference : Int} (h : Differ left right difference) :
    Relates .greaterThan left right ↔ 0 < difference :=
  (h.relates_iff .greaterThan).trans decide_eq_true_iff

theorem Differ.relates_equal {difference : Int} (h : Differ left right difference) :
    Relates .equal left right ↔ difference = 0 :=
  (h.relates_iff .equal).trans beq_iff_eq

/-- The laws that are about two values and one order of them hold always. -/
theorem Differ.consistentAt {difference : Int} {a b c : Value} (h : Differ a b difference)
    (hswap : Relates .lessThan a b ↔ Relates .greaterThan b a)
    (htrans : Relates .lessThan a b → Relates .lessThan b c → Relates .lessThan a c) :
    ConsistentAt a b c where
  trichotomy := by
    rw [h.relates_lessThan, h.relates_equal, h.relates_greaterThan]
    omega
  lessEquals := by
    rw [h.relates_lessThan, h.relates_equal, h.relates_iff]
    exact decide_eq_true_iff.trans (by omega)
  greaterEquals := by
    rw [h.relates_greaterThan, h.relates_equal, h.relates_iff]
    exact decide_eq_true_iff.trans (by omega)
  notEquals := by
    rw [h.relates_equal, h.relates_iff]
    exact bne_iff_ne
  swap := hswap
  trans := htrans

theorem lengthTaken_of_relates {op : ComparisonType}
    (h : Relates op (.varchar (some text)) (.varchar (some text'))) :
    LengthTaken text ∧ LengthTaken text' := by
  have hcompare : compareVarlen op text (.varchar (some text')) = .ok .cmpTrue := h
  rw [compareVarlen] at hcompare
  cases hstr : text.comparedText with
  | error fault =>
      rw [hstr] at hcompare
      cases hcompare
  | ok str =>
      cases hstr' : text'.comparedText with
      | error fault =>
          rw [hstr, hstr'] at hcompare
          cases hcompare
      | ok str' => exact ⟨lengthTaken_of_comparedText hstr, lengthTaken_of_comparedText hstr'⟩

/-- An order that is consistent is one order. -/
theorem oneOrder_of_consistent {values : Set Value} (hcomparand : ∀ a ∈ values, Comparand a)
    (hconvertible : Convertible values) (h : Consistent values) : OneOrder values := by
  -- a VARCHAR whose length is not taken has no comparison with itself
  have hlengths : ∀ text, Value.varchar (some text) ∈ values → LengthTaken text := by
    intro text htext
    rcases (h _ htext _ htext _ htext).trichotomy with ⟨hlt, -⟩ | ⟨-, heq, -⟩ | ⟨-, -, hgt⟩
    · exact (lengthTaken_of_relates hlt).1
    · exact (lengthTaken_of_relates heq).1
    · exact (lengthTaken_of_relates hgt).1
  have hsome : ∀ value ∈ values, value.isNull = false := by
    intro value hvalue
    cases hcomparand value hvalue with
    | integer _ hsome => exact hsome
    | text text => rfl
  -- an integer on the left reads the VARCHAR, one on the right is written as text
  have hsides : ∀ value ∈ values, ∀ type i, value.integerContent = some (type, i) →
      ∀ text, Value.varchar (some text) ∈ values →
        (i < readAs type text ↔ textBytes s!"{i}" < text.text) ∧
        (readAs type text < i ↔ text.text < textBytes s!"{i}") := by
    intro value hvalue type i hi text htext
    obtain ⟨result, hcast⟩ := hconvertible value hvalue type i hi text htext
    have hleft := differ_integer_text hi (hsome value hvalue) hcast
    have hright := differ_text_integer (hlengths text htext) hi (hsome value hvalue)
    have hlt := (h value hvalue _ htext _ htext).swap
    have hgt := (h _ htext value hvalue _ htext).swap
    rw [hleft.relates_lessThan, hright.relates_greaterThan, compareStrings_pos_iff] at hlt
    rw [hright.relates_lessThan, hleft.relates_greaterThan, compareStrings_neg_iff] at hgt
    exact ⟨sub_neg.symm.trans hlt, sub_pos.symm.trans hgt.symm⟩
  refine ⟨hlengths, hsides, ?_⟩
  rintro first hfirst type i hi second hsecond type' j hj text htext ⟨hbelow, hij, habove, hgaps⟩
  obtain ⟨result, hcast⟩ := hconvertible first hfirst type i hi text htext
  obtain ⟨result', hcast'⟩ := hconvertible second hsecond type' j hj text htext
  have hints := differ_integers hi (hsome first hfirst) hj (hsome second hsecond)
  have hints' := differ_integers hj (hsome second hsecond) hi (hsome first hfirst)
  have hfirstText := differ_integer_text hi (hsome first hfirst) hcast
  have hsecondText := differ_integer_text hj (hsome second hsecond) hcast'
  have htextFirst := differ_text_integer (hlengths text htext) hi (hsome first hfirst)
  have htextSecond := differ_text_integer (hlengths text htext) hj (hsome second hsecond)
  rcases hgaps with ⟨hfirstGap, hmiddle⟩ | ⟨hmiddle, hlastGap⟩ | ⟨hfirstGap, hlastGap⟩
  · -- The VARCHAR is less than the first integer, and not less than the second one.
    have hlt := (h _ htext first hfirst second hsecond).trans
    rw [htextFirst.relates_lessThan, hints.relates_lessThan, htextSecond.relates_lessThan,
      compareStrings_neg_iff, compareStrings_neg_iff,
      ← (hsides first hfirst type i hi text htext).2,
      ← (hsides second hsecond type' j hj text htext).2] at hlt
    have := hlt hfirstGap (by omega)
    omega
  · -- The first integer is less than the second one, and the VARCHAR is read as one above it.
    have hlt := (h first hfirst second hsecond _ htext).trans
    rw [hints.relates_lessThan, hsecondText.relates_lessThan, hfirstText.relates_lessThan] at hlt
    have := hlt (by omega) (by omega)
    omega
  · -- The second integer is less than the VARCHAR, which is less than the first one.
    have hlt := (h second hsecond _ htext first hfirst).trans
    rw [hsecondText.relates_lessThan, htextFirst.relates_lessThan, hints'.relates_lessThan,
      compareStrings_neg_iff, ← (hsides first hfirst type i hi text htext).2] at hlt
    have := hlt (by omega) hfirstGap
    omega

section OneOrder

variable {values : Set Value}

theorem exists_differ (hconvertible : Convertible values) (horder : OneOrder values)
    (hleft : left ∈ values) (hright : right ∈ values) (hcomparand : Comparand left)
    (hcomparand' : Comparand right) : ∃ difference, Differ left right difference := by
  cases hcomparand with
  | integer hi hsome =>
      cases hcomparand' with
      | integer hj hsome' => exact ⟨_, differ_integers hi hsome hj hsome'⟩
      | text text =>
          obtain ⟨result, hcast⟩ := hconvertible left hleft _ _ hi text hright
          exact ⟨_, differ_integer_text hi hsome hcast⟩
  | text text =>
      cases hcomparand' with
      | integer hj hsome' =>
          exact ⟨_, differ_text_integer (horder.lengths text hleft) hj hsome'⟩
      | text text' =>
          exact ⟨_, differ_texts (horder.lengths text hleft) (horder.lengths text' hright)⟩

theorem relates_swap (hconvertible : Convertible values) (horder : OneOrder values)
    (hleft : left ∈ values) (hright : right ∈ values) (hcomparand : Comparand left)
    (hcomparand' : Comparand right) :
    Relates .lessThan left right ↔ Relates .greaterThan right left := by
  cases hcomparand with
  | integer hi hsome =>
      cases hcomparand' with
      | integer hj hsome' =>
          rw [(differ_integers hi hsome hj hsome').relates_lessThan,
            (differ_integers hj hsome' hi hsome).relates_greaterThan, sub_neg, sub_pos]
      | text text =>
          obtain ⟨result, hcast⟩ := hconvertible left hleft _ _ hi text hright
          rw [(differ_integer_text hi hsome hcast).relates_lessThan,
            (differ_text_integer (horder.lengths text hright) hi hsome).relates_greaterThan,
            compareStrings_pos_iff, sub_neg]
          -- the two readings of the pair agree, since the values are on one side of each other in
          -- both
          exact (horder.sides left hleft _ _ hi text hright).1
  | text text =>
      cases hcomparand' with
      | integer hj hsome' =>
          obtain ⟨result, hcast⟩ := hconvertible right hright _ _ hj text hleft
          rw [(differ_integer_text hj hsome' hcast).relates_greaterThan,
            (differ_text_integer (horder.lengths text hleft) hj hsome').relates_lessThan,
            compareStrings_neg_iff, sub_pos]
          exact (horder.sides right hright _ _ hj text hleft).2.symm
      | text text' =>
          have htext := horder.lengths text hleft
          have htext' := horder.lengths text' hright
          rw [(differ_texts htext htext').relates_lessThan,
            (differ_texts htext' htext).relates_greaterThan, compareStrings_neg_iff,
            compareStrings_pos_iff]

/-- The text by which a value is compared with a VARCHAR. -/
def textOf : Value → List UInt8
  | .varchar (some text) => text.text
  | value => (value.integerContent.map fun content => textBytes s!"{content.2}").getD []

omit [DoubleText] in
theorem textOf_of_integerContent (h : left.integerContent = some (type, i)) :
    textOf left = textBytes s!"{i}" := by
  cases left with
  | tinyint content => cases h; rfl
  | smallint content => cases h; rfl
  | integer content => cases h; rfl
  | bigint content => cases h; rfl
  | boolean content => cases h
  | decimal content => cases h
  | varchar content => cases h

/-- When one of two values is a VARCHAR, their texts are compared. -/
theorem relates_lessThan_text (hconvertible : Convertible values) (horder : OneOrder values)
    (hleft : left ∈ values) (hright : right ∈ values) (hcomparand : Comparand left)
    (hcomparand' : Comparand right)
    (htext : left.integerContent = none ∨ right.integerContent = none) :
    Relates .lessThan left right ↔ textOf left < textOf right := by
  cases hcomparand with
  | integer hi hsome =>
      cases hcomparand' with
      | integer hj hsome' =>
          rcases htext with hnone | hnone
          · rw [hnone] at hi
            cases hi
          · rw [hnone] at hj
            cases hj
      | text text =>
          obtain ⟨result, hcast⟩ := hconvertible left hleft _ _ hi text hright
          rw [(differ_integer_text hi hsome hcast).relates_lessThan, sub_neg,
            textOf_of_integerContent hi]
          exact (horder.sides left hleft _ _ hi text hright).1
  | text text =>
      have htaken := horder.lengths text hleft
      cases hcomparand' with
      | integer hj hsome' =>
          rw [(differ_text_integer htaken hj hsome').relates_lessThan, compareStrings_neg_iff,
            textOf_of_integerContent hj]
          rfl
      | text text' =>
          rw [(differ_texts htaken (horder.lengths text' hright)).relates_lessThan,
            compareStrings_neg_iff]
          rfl

theorem relates_trans (hconvertible : Convertible values) (horder : OneOrder values) {a b c : Value}
    (ha : a ∈ values) (hb : b ∈ values) (hc : c ∈ values) (hcompA : Comparand a)
    (hcompB : Comparand b) (hcompC : Comparand c) (hab : Relates .lessThan a b)
    (hbc : Relates .lessThan b c) : Relates .lessThan a c := by
  -- Where two of the three comparisons are of texts, the third one is.
  have htexts : (a.integerContent = none ∨ b.integerContent = none) →
      (b.integerContent = none ∨ c.integerContent = none) →
      (a.integerContent = none ∨ c.integerContent = none) → Relates .lessThan a c := by
    intro hnoneAB hnoneBC hnoneAC
    rw [relates_lessThan_text hconvertible horder ha hb hcompA hcompB hnoneAB] at hab
    rw [relates_lessThan_text hconvertible horder hb hc hcompB hcompC hnoneBC] at hbc
    rw [relates_lessThan_text hconvertible horder ha hc hcompA hcompC hnoneAC]
    exact List.lt_trans hab hbc
  cases hcompA with
  | integer hi hsomeA =>
      cases hcompB with
      | integer hj hsomeB =>
          rw [(differ_integers hi hsomeA hj hsomeB).relates_lessThan] at hab
          cases hcompC with
          | integer hk hsomeC =>
              rw [(differ_integers hj hsomeB hk hsomeC).relates_lessThan] at hbc
              rw [(differ_integers hi hsomeA hk hsomeC).relates_lessThan]
              omega
          | text text =>
              obtain ⟨resultA, hcastA⟩ := hconvertible a ha _ _ hi text hc
              obtain ⟨resultB, hcastB⟩ := hconvertible b hb _ _ hj text hc
              have hnot := horder.readings a ha _ _ hi b hb _ _ hj text hc
              rw [(differ_integer_text hj hsomeB hcastB).relates_lessThan] at hbc
              rw [(differ_integer_text hi hsomeA hcastA).relates_lessThan]
              by_contra hcon
              exact hnot ⟨by omega, by omega, by omega, Or.inr (Or.inl ⟨by omega, by omega⟩)⟩
      | text text =>
          cases hcompC with
          | integer hk hsomeC =>
              obtain ⟨resultA, hcastA⟩ := hconvertible a ha _ _ hi text hb
              have hnot := horder.readings c hc _ _ hk a ha _ _ hi text hb
              rw [(differ_integer_text hi hsomeA hcastA).relates_lessThan] at hab
              rw [(differ_text_integer (horder.lengths text hb) hk hsomeC).relates_lessThan,
                compareStrings_neg_iff, ← (horder.sides c hc _ _ hk text hb).2] at hbc
              rw [(differ_integers hi hsomeA hk hsomeC).relates_lessThan]
              by_contra hcon
              exact hnot ⟨by omega, by omega, by omega, Or.inr (Or.inr ⟨by omega, by omega⟩)⟩
          | text text' => exact htexts (Or.inr rfl) (Or.inl rfl) (Or.inr rfl)
  | text text =>
      cases hcompB with
      | integer hj hsomeB =>
          cases hcompC with
          | integer hk hsomeC =>
              have hnot := horder.readings b hb _ _ hj c hc _ _ hk text ha
              have htaken := horder.lengths text ha
              rw [(differ_text_integer htaken hj hsomeB).relates_lessThan,
                compareStrings_neg_iff, ← (horder.sides b hb _ _ hj text ha).2] at hab
              rw [(differ_integers hj hsomeB hk hsomeC).relates_lessThan] at hbc
              rw [(differ_text_integer htaken hk hsomeC).relates_lessThan,
                compareStrings_neg_iff, ← (horder.sides c hc _ _ hk text ha).2]
              by_contra hcon
              exact hnot ⟨by omega, by omega, by omega, Or.inl ⟨by omega, by omega⟩⟩
          | text text' => exact htexts (Or.inl rfl) (Or.inr rfl) (Or.inl rfl)
      | text text' => exact htexts (Or.inl rfl) (Or.inl rfl) (Or.inl rfl)

end OneOrder

/-- The comparisons of some values are consistent exactly when they have one order. -/
theorem consistent_iff {values : Set Value} (hcomparand : ∀ a ∈ values, Comparand a)
    (hconvertible : Convertible values) : Consistent values ↔ OneOrder values := by
  constructor
  · exact oneOrder_of_consistent hcomparand hconvertible
  · intro horder a ha b hb c hc
    obtain ⟨difference, hdiffer⟩ := exists_differ hconvertible horder ha hb (hcomparand a ha)
      (hcomparand b hb)
    exact hdiffer.consistentAt
      (relates_swap hconvertible horder ha hb (hcomparand a ha) (hcomparand b hb))
      (relates_trans hconvertible horder ha hb hc (hcomparand a ha) (hcomparand b hb)
        (hcomparand c hc))

omit [DoubleText] in
/-- The INTEGER `5` and the VARCHAR `6`: the order of the numbers is that of the texts. -/
theorem consistent_iff_fiveAndSix :
    @Consistent noDoubleText {value | value = .integer 5 ∨ value = ofText (textBytes "6")} := by
  let _ := noDoubleText
  have hsix : ofText (textBytes "6") = .varchar (some ⟨[54, 0], by decide⟩) := rfl
  rw [hsix]
  have hcomparand : ∀ a ∈ {value | value = Value.integer 5 ∨
      value = .varchar (some ⟨[54, 0], by decide⟩)}, Comparand a := by
    rintro a (rfl | rfl)
    · exact .integer rfl rfl
    · exact .text _
  apply (consistent_iff hcomparand ?_).mpr
  · refine ⟨?_, ?_, ?_⟩
    · rintro text (htext | htext) <;> cases htext
      unfold LengthTaken
      decide
    · rintro value (rfl | rfl) type i hi text (htext | htext) <;> cases htext <;> cases hi
      decide
    · rintro first (rfl | rfl) type i hi second (rfl | rfl) type' j hj text (htext | htext) <;>
        cases htext <;> cases hi <;> cases hj
      unfold Crossed
      decide
  · rintro value (rfl | rfl) type i hi text (htext | htext) <;> cases htext <;> cases hi
    exact ⟨.integer 6, by decide⟩

omit [DoubleText] in
/-- The INTEGER `7` equals the VARCHAR `007`, which is less than it. -/
theorem sevenAndZeros_not_consistentAt :
    let compare := @Value.compare noDoubleText
    compare .equal (.integer 7) (ofText (textBytes "007")) = .ok .cmpTrue ∧
      compare .lessThan (ofText (textBytes "007")) (.integer 7) = .ok .cmpTrue ∧
      ¬ @ConsistentAt noDoubleText (ofText (textBytes "007")) (.integer 7) (.integer 7) := by
  intro compare
  have hless : compare .lessThan (ofText (textBytes "007")) (.integer 7) = .ok .cmpTrue := by
    decide
  have hgreater : compare .greaterThan (.integer 7) (ofText (textBytes "007")) = .ok .cmpFalse := by
    decide
  refine ⟨by decide, hless, ?_⟩
  intro h
  let _ := noDoubleText
  have htrue : compare .greaterThan (.integer 7) (ofText (textBytes "007")) = .ok .cmpTrue :=
    h.swap.mp hless
  rw [hgreater] at htrue
  cases htrue

end Value
end BusTub
