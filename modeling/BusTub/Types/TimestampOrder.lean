import BusTub.Types.Timestamp

/-! # The order of timestamps

The comparisons of `TimestampType` are those of the packed numbers, in which the month and
the day stand before the year. One of the six takes the numbers for signed ones. All of them
assert that the values can be compared, and `CheckComparable` knows no timestamps.
-/

namespace BusTub

namespace TimestampType

/-- `IsNull` of a timestamp. -/
def isNull (value : UInt64) : Bool := value.toNat == 2 ^ 64 - 1

/-- `CheckComparable` where the left value is a timestamp: its type is not among the cases. -/
def checkComparable (_left _right : UInt64) : Bool := false

/-- A comparison, with the condition under which it gives NULL; `asserts` says whether
assertions are compiled. -/
def compare (asserts : Bool) (op : UInt64 → UInt64 → Bool) (unknown : UInt64 → UInt64 → Bool)
    (left right : UInt64) : Except EvalFault CmpBool :=
  if asserts && !checkComparable left right then .error .notComparable
  else if unknown left right then .ok .cmpNull
  else .ok (Value.getCmpBool (op left right))

/-- One of the operands is NULL. -/
def eitherNull (left right : UInt64) : Bool := isNull left || isNull right

/-- `CompareEquals`. -/
def compareEquals (asserts : Bool) : UInt64 → UInt64 → Except EvalFault CmpBool :=
  compare asserts (fun left right => left == right) eitherNull

/-- `CompareNotEquals`, which does not look for NULL on the left. -/
def compareNotEquals (asserts : Bool) : UInt64 → UInt64 → Except EvalFault CmpBool :=
  compare asserts (fun left right => left != right) fun _ right => isNull right

/-- `CompareLessThan`. -/
def compareLessThan (asserts : Bool) : UInt64 → UInt64 → Except EvalFault CmpBool :=
  compare asserts (fun left right => left < right) eitherNull

/-- `CompareLessThanEquals`. -/
def compareLessThanEquals (asserts : Bool) : UInt64 → UInt64 → Except EvalFault CmpBool :=
  compare asserts (fun left right => left ≤ right) eitherNull

/-- `CompareGreaterThan`, of signed numbers. -/
def compareGreaterThan (asserts : Bool) : UInt64 → UInt64 → Except EvalFault CmpBool :=
  compare asserts (fun left right => left.toInt64 > right.toInt64) eitherNull

/-- `CompareGreaterThanEquals`. -/
def compareGreaterThanEquals (asserts : Bool) : UInt64 → UInt64 → Except EvalFault CmpBool :=
  compare asserts (fun left right => left ≥ right) eitherNull

end TimestampType

/-! ## What the comparisons are for -/

/-- A date and a time of the day, by the fields of a text; the seconds are those of the day. -/
structure DateTime where
  year : Nat
  month : Nat
  day : Nat
  second : Nat
  micro : Nat
  deriving DecidableEq, Repr

namespace DateTime

/-- The first date-time comes before the second one, in one time zone. -/
def Earlier (a b : DateTime) : Prop :=
  [a.year, a.month, a.day, a.second, a.micro] < [b.year, b.month, b.day, b.second, b.micro]

instance (a b : DateTime) : Decidable (Earlier a b) := inferInstanceAs (Decidable (_ < _))

/-- The packed number has its highest bit set: in the order of the packing, the date-time is not
before the 21st of October of the year 3720 at 10:14:14.775808, at an offset of four hours. -/
def HighBit (zone : Int) (a : DateTime) : Prop :=
  ¬ [(a.month : Int), a.day, zone, a.year, a.second, a.micro] < [10, 21, 4, 3720, 36854, 775808]

instance (zone : Int) (a : DateTime) : Decidable (HighBit zone a) :=
  inferInstanceAs (Decidable (¬ _))

/-- The one of an earlier year has no later month and day. -/
def YearsAgree (a b : DateTime) : Prop :=
  (a.year < b.year → ¬ [b.month, b.day] < [a.month, a.day]) ∧
    (b.year < a.year → ¬ [a.month, a.day] < [b.month, b.day])

instance (a b : DateTime) : Decidable (YearsAgree a b) := inferInstanceAs (Decidable (_ ∧ _))

end DateTime

namespace TimestampType

open ValueFactory

/-- The text as `CastAsTimestamp` goes on with it: one without microseconds has none. -/
def withMicros (str : List UInt8) : List UInt8 :=
  if str.length = 22 then str.take 19 ++ textBytes ".000000" ++ field str 19 3 else str

/-- The offset of a text. -/
def zoneOfText (str : List UInt8) : Int := zoneOf (withMicros str)

/-- The date and the time of a text. -/
def dateTimeOf (str : List UInt8) : DateTime :=
  let str := withMicros str
  { year := digitsValue (field str 0 4)
    month := digitsValue (field str 5 2)
    day := digitsValue (field str 8 2)
    second := digitsValue (field str 11 2) * 3600 + digitsValue (field str 14 2) * 60 +
      digitsValue (field str 17 2)
    micro := digitsValue (field str 20 6) }

/-- A comparison is true. -/
def Holds (result : Except EvalFault CmpBool) : Prop := result = .ok .cmpTrue

/-- A comparison is false. -/
def Fails (result : Except EvalFault CmpBool) : Prop := result = .ok .cmpFalse

/-- The six comparisons of two timestamps fit each other and the order of time. -/
structure Consistent (asserts : Bool) (left right : UInt64) (earlier : Prop) : Prop where
  trichotomy :
    (Holds (compareLessThan asserts left right) ∧ Fails (compareEquals asserts left right) ∧
      Fails (compareGreaterThan asserts left right)) ∨
    (Fails (compareLessThan asserts left right) ∧ Holds (compareEquals asserts left right) ∧
      Fails (compareGreaterThan asserts left right)) ∨
    (Fails (compareLessThan asserts left right) ∧ Fails (compareEquals asserts left right) ∧
      Holds (compareGreaterThan asserts left right))
  notEquals : (Holds (compareNotEquals asserts left right) ↔
      Fails (compareEquals asserts left right)) ∧
    (Fails (compareNotEquals asserts left right) ↔ Holds (compareEquals asserts left right))
  lessThanEquals : (Holds (compareLessThanEquals asserts left right) ↔
      Fails (compareGreaterThan asserts left right)) ∧
    (Fails (compareLessThanEquals asserts left right) ↔
      Holds (compareGreaterThan asserts left right))
  greaterThanEquals : (Holds (compareGreaterThanEquals asserts left right) ↔
      Fails (compareLessThan asserts left right)) ∧
    (Fails (compareGreaterThanEquals asserts left right) ↔
      Holds (compareLessThan asserts left right))
  mirror : compareEquals asserts left right = compareEquals asserts right left ∧
    compareNotEquals asserts left right = compareNotEquals asserts right left ∧
    compareLessThan asserts left right = compareGreaterThan asserts right left ∧
    compareGreaterThan asserts left right = compareLessThan asserts right left ∧
    compareLessThanEquals asserts left right = compareGreaterThanEquals asserts right left ∧
    compareGreaterThanEquals asserts left right = compareLessThanEquals asserts right left
  chronological : Holds (compareLessThan asserts left right) ↔ earlier

/-! ## The packed numbers -/

/-- Numbers with one more digit are ordered by the digits before it, and then by it. -/
theorem mul_add_lt_iff {a b c d r : Nat} (hc : c < r) (hd : d < r) :
    a * r + c < b * r + d ↔ a < b ∨ a = b ∧ c < d := by
  rcases lt_trichotomy a b with hless | rfl | hmore
  · have hmul := Nat.mul_le_mul_right r hless
    rw [Nat.succ_mul] at hmul
    simp only [hless, true_or, iff_true]
    omega
  · simp only [lt_irrefl, true_and, false_or]
    exact Nat.add_lt_add_iff_left
  · have hmul := Nat.mul_le_mul_right r hmore
    rw [Nat.succ_mul] at hmul
    constructor
    · omega
    · rintro (hless | ⟨rfl, -⟩)
      · omega
      · exact absurd hmore (lt_irrefl _)

theorem mul_add_eq_iff {a b c d r : Nat} (hc : c < r) (hd : d < r) :
    a * r + c = b * r + d ↔ a = b ∧ c = d := by
  have hless := @mul_add_lt_iff a b c d r hc hd
  have hmore := @mul_add_lt_iff b a d c r hd hc
  omega

/-- The number of a date-time with an offset, counted from minus 12 hours. -/
def packed (timezone : Nat) (a : DateTime) : Nat :=
  ((((a.month * 32 + a.day) * 27 + timezone) * 10000 + a.year) * 100000 + a.second) * 1000000 +
    a.micro

/-- The fields have their places in the number. -/
structure InRange (a : DateTime) : Prop where
  month : a.month ≤ 12
  day : a.day ≤ 31
  year : a.year < 10000
  second : a.second < 86400
  micro : a.micro < 1000000

variable {a b : DateTime} {timezone other : Nat}

theorem packed_lt_iff (ha : InRange a) (hb : InRange b) (hzone : timezone < 27)
    (hother : other < 27) : packed timezone a < packed other b ↔
      [a.month, a.day, timezone, a.year, a.second, a.micro] <
        [b.month, b.day, other, b.year, b.second, b.micro] := by
  have hdayA := Nat.lt_succ_of_le ha.day
  have hdayB := Nat.lt_succ_of_le hb.day
  have hsecondA : a.second < 100000 := ha.second.trans (by decide)
  have hsecondB : b.second < 100000 := hb.second.trans (by decide)
  unfold packed
  rw [mul_add_lt_iff ha.micro hb.micro, mul_add_lt_iff hsecondA hsecondB,
    mul_add_eq_iff hsecondA hsecondB, mul_add_lt_iff ha.year hb.year,
    mul_add_eq_iff ha.year hb.year, mul_add_lt_iff hzone hother, mul_add_eq_iff hzone hother,
    mul_add_lt_iff hdayA hdayB, mul_add_eq_iff hdayA hdayB]
  simp only [List.cons_lt_cons_iff, List.not_lt_nil, and_false, or_false]
  omega

theorem packed_lt (ha : InRange a) (hzone : timezone < 27) :
    packed timezone a < 2 ^ 64 - 1 := by
  obtain ⟨hmonth, hday, hyear, hsecond, hmicro⟩ := ha
  unfold packed
  omega

/-- Among numbers of one offset, the years come behind the months and days. -/
theorem packed_lt_iff_earlier (ha : InRange a) (hb : InRange b) (hzone : timezone < 27) :
    (packed timezone a < packed timezone b ↔ a.Earlier b) ↔ a.YearsAgree b := by
  rw [packed_lt_iff ha hb hzone hzone]
  unfold DateTime.Earlier DateTime.YearsAgree
  simp only [List.cons_lt_cons_iff, List.not_lt_nil, and_false, or_false]
  simp only [lt_irrefl, true_and, false_or]
  rcases lt_trichotomy a.year b.year with hless | hsame | hmore
  · simp only [hless, hless.ne, hless.not_gt, false_and, or_false, true_implies, false_implies,
      and_true, iff_true]
    omega
  · simp only [hsame, lt_irrefl, true_and, false_or, false_implies, and_self]
  · simp only [hmore, hmore.ne', hmore.not_gt, false_and, and_false, or_false, true_implies,
      false_implies, true_and, iff_false]

theorem highBit_iff (ha : InRange a) {zone : Int} (hzone : timezone < 27)
    (hsame : (timezone : Int) = zone + 12) : a.HighBit zone ↔ 2 ^ 63 ≤ packed timezone a := by
  have hbound : packed 16 ⟨3720, 10, 21, 36854, 775808⟩ = 2 ^ 63 := by decide
  have hrange : InRange ⟨3720, 10, 21, 36854, 775808⟩ := by constructor <;> decide
  rw [← hbound, ← not_lt, packed_lt_iff ha hrange hzone (by decide)]
  unfold DateTime.HighBit
  simp only [List.cons_lt_cons_iff, List.not_lt_nil, and_false, or_false]
  omega

/-! ## The comparisons -/

section Comparisons

variable {left right : List UInt8} {value other' : UInt64}

theorem castAsTimestamp_withMicros {str : List UInt8} {value : UInt64}
    (h : castAsTimestamp str = .ok value) :
    (withMicros str).length = 29 ∧ castAsTimestamp (withMicros str) = .ok value := by
  by_cases hshort : str.length = 22
  · have hlong : (withMicros str).length = 29 := by
      unfold withMicros field
      rw [if_pos hshort]
      simp only [List.length_append, List.length_take, List.length_drop, hshort]
      rfl
    refine ⟨hlong, ?_⟩
    have hkept : (if (withMicros str).length = 22 then
        (withMicros str).take 19 ++ textBytes ".000000" ++ field (withMicros str) 19 3
        else withMicros str) = withMicros str := if_neg (by omega)
    unfold castAsTimestamp at h ⊢
    simp only [hkept]
    exact h
  · have hsame : withMicros str = str := if_neg hshort
    rw [hsame]
    refine ⟨?_, h⟩
    by_contra hlength
    unfold castAsTimestamp at h
    simp only [if_neg hshort, if_pos hlength] at h
    cases h

/-- The number of a text that is accepted, by its date-time. -/
theorem packed_of_castAsTimestamp {str : List UInt8} {value : UInt64}
    (h : castAsTimestamp str = .ok value) (hlow : -12 ≤ zoneOfText str)
    (hhigh : zoneOfText str ≤ 14) : InRange (dateTimeOf str) ∧
      value.toNat = packed (zoneOfText str + 12).toNat (dateTimeOf str) := by
  obtain ⟨hlength, hcast⟩ := castAsTimestamp_withMicros h
  have haccepted := accepted_of_castAsTimestamp hlength hcast
  obtain ⟨hyear, hmicro, hvalue⟩ := haccepted.toNat_eq hlength hlow hhigh
  refine ⟨⟨haccepted.month, haccepted.day, hyear, ?_, hmicro⟩, hvalue⟩
  have hhour := haccepted.hour
  have hmin := haccepted.min
  have hsec := haccepted.sec
  unfold dateTimeOf
  dsimp only
  omega

theorem toInt_toInt64 (value : UInt64) : value.toInt64.toInt =
    if value.toNat < 2 ^ 63 then (value.toNat : Int) else value.toNat - 2 ^ 64 := by
  have hlt := value.toNat_lt
  change value.toBitVec.toInt = _
  rw [BitVec.toInt_eq_toNat_bmod, UInt64.toNat_toBitVec, Int.bmod_def]
  split <;> split <;> omega

/-- The comparison of signed numbers is the right one unless their highest bits differ. -/
theorem toInt64_lt_iff {x y : UInt64} : y.toInt64 < x.toInt64 ↔
    (2 ^ 63 ≤ x.toNat ↔ 2 ^ 63 ≤ y.toNat) ∧ y.toNat < x.toNat ∨
      2 ^ 63 ≤ y.toNat ∧ x.toNat < 2 ^ 63 := by
  have hx := x.toNat_lt
  have hy := y.toNat_lt
  rw [Int64.lt_iff_toInt_lt, toInt_toInt64, toInt_toInt64]
  split <;> split <;> omega

/-- No comparison gets past the assertion. -/
theorem not_consistent_of_asserts {x y : UInt64} {earlier : Prop} :
    ¬ Consistent true x y earlier := by
  intro h
  rcases h.trichotomy with ⟨hless, -⟩ | ⟨-, hequal, -⟩ | ⟨-, -, hmore⟩
  · cases hless
  · cases hequal
  · cases hmore

section Operators

variable {x y : UInt64}

theorem compare_of_not_null {op unknown : UInt64 → UInt64 → Bool} (h : unknown x y = false) :
    compare false op unknown x y = .ok (Value.getCmpBool (op x y)) := by
  unfold compare
  rw [Bool.false_and, h]
  rfl

theorem holds_ok_iff {b : Bool} : Holds (.ok (Value.getCmpBool b)) ↔ b = true := by
  cases b <;> simp [Holds, Value.getCmpBool]

theorem fails_ok_iff {b : Bool} : Fails (.ok (Value.getCmpBool b)) ↔ b = false := by
  cases b <;> simp [Fails, Value.getCmpBool]

/-- The six comparisons of numbers that are not NULL, without assertions. -/
theorem compare_eqs (hx : isNull x = false) (hy : isNull y = false) :
    compareEquals false x y = .ok (Value.getCmpBool (x.toNat = y.toNat)) ∧
      compareNotEquals false x y = .ok (Value.getCmpBool (x.toNat ≠ y.toNat)) ∧
      compareLessThan false x y = .ok (Value.getCmpBool (x.toNat < y.toNat)) ∧
      compareLessThanEquals false x y = .ok (Value.getCmpBool (x.toNat ≤ y.toNat)) ∧
      compareGreaterThan false x y = .ok (Value.getCmpBool (y.toInt64 < x.toInt64)) ∧
      compareGreaterThanEquals false x y = .ok (Value.getCmpBool (y.toNat ≤ x.toNat)) := by
  have hnull : eitherNull x y = false := by
    unfold eitherNull
    rw [hx, hy]
    rfl
  refine ⟨(compare_of_not_null hnull).trans ?_, (compare_of_not_null hy).trans ?_,
    compare_of_not_null hnull, compare_of_not_null hnull, compare_of_not_null hnull,
    compare_of_not_null hnull⟩
  · rw [beq_eq_decide, decide_eq_decide.mpr UInt64.toNat_inj.symm]
  · rw [bne, beq_eq_decide, ← decide_not, decide_eq_decide.mpr (not_congr UInt64.toNat_inj.symm)]

/-- Without assertions, two numbers that are not NULL compare consistently if they agree in the
highest bit, and the smaller number is the one of the earlier date-time. -/
theorem consistent_iff_toNat {earlier : Prop} (hx : isNull x = false) (hy : isNull y = false) :
    Consistent false x y earlier ↔
      (2 ^ 63 ≤ x.toNat ↔ 2 ^ 63 ≤ y.toNat) ∧ (x.toNat < y.toNat ↔ earlier) := by
  obtain ⟨heq, hne, hlt, hle, hgt, hge⟩ := compare_eqs hx hy
  obtain ⟨heq', hne', hlt', hle', hgt', hge'⟩ := compare_eqs hy hx
  constructor
  · intro h
    have htri := h.trichotomy
    have hearlier := h.chronological
    rw [hlt, heq, hgt] at htri
    rw [hlt] at hearlier
    simp only [holds_ok_iff, fails_ok_iff, decide_eq_true_eq, decide_eq_false_iff_not,
      toInt64_lt_iff] at htri hearlier
    exact ⟨by omega, hearlier⟩
  · rintro ⟨hbits, hearlier⟩
    have hmore : y.toInt64 < x.toInt64 ↔ y.toNat < x.toNat := by
      rw [toInt64_lt_iff, and_iff_right hbits]
      omega
    have hless : x.toInt64 < y.toInt64 ↔ x.toNat < y.toNat := by
      rw [toInt64_lt_iff, and_iff_right hbits.symm]
      omega
    rw [decide_eq_decide.mpr hmore] at hgt
    rw [decide_eq_decide.mpr hless] at hgt'
    refine ⟨?_, ?_, ?_, ?_, ⟨?_, ?_, ?_, ?_, ?_, ?_⟩, ?_⟩
    · rw [hlt, heq, hgt]
      simp only [holds_ok_iff, fails_ok_iff, decide_eq_true_eq, decide_eq_false_iff_not]
      omega
    · rw [hne, heq]
      simp only [holds_ok_iff, fails_ok_iff, decide_eq_true_eq, decide_eq_false_iff_not, not_not,
        ne_eq, and_self]
    · rw [hle, hgt]
      simp only [holds_ok_iff, fails_ok_iff, decide_eq_true_eq, decide_eq_false_iff_not, not_lt,
        not_le, and_self]
    · rw [hge, hlt]
      simp only [holds_ok_iff, fails_ok_iff, decide_eq_true_eq, decide_eq_false_iff_not, not_lt,
        not_le, and_self]
    · rw [heq, heq', decide_eq_decide.mpr eq_comm]
    · rw [hne, hne', decide_eq_decide.mpr ne_comm]
    · rw [hlt, hgt']
    · rw [hgt, hlt']
    · rw [hle, hge']
    · rw [hge, hle']
    · rw [hlt, holds_ok_iff, decide_eq_true_eq]
      exact hearlier

end Operators

variable {other : UInt64}

theorem isNull_eq_false {x : UInt64} (h : x.toNat < 2 ^ 64 - 1) : isNull x = false := by
  unfold isNull
  rw [beq_eq_false_iff_ne]
  exact h.ne

/-- Two timestamps of one offset compare consistently, and as their date-times do, if there are no
assertions, their numbers agree in the highest bit, and the year comes first in the order of
months and days as well. -/
theorem consistent_castAsTimestamp_iff (asserts : Bool)
    (hleft : castAsTimestamp left = .ok value) (hright : castAsTimestamp right = .ok other)
    (hzones : zoneOfText left = zoneOfText right) (hlow : -12 ≤ zoneOfText left)
    (hhigh : zoneOfText left ≤ 14) :
    Consistent asserts value other ((dateTimeOf left).Earlier (dateTimeOf right)) ↔
      asserts = false ∧ ((dateTimeOf left).HighBit (zoneOfText left) ↔
        (dateTimeOf right).HighBit (zoneOfText right)) ∧
      (dateTimeOf left).YearsAgree (dateTimeOf right) := by
  obtain ⟨hrangeL, hvalue⟩ := packed_of_castAsTimestamp hleft hlow hhigh
  obtain ⟨hrangeR, hother⟩ := packed_of_castAsTimestamp hright (hzones ▸ hlow) (hzones ▸ hhigh)
  rw [← hzones] at hother ⊢
  generalize zoneOfText left = zone at *
  have htimezone : (zone + 12).toNat < 27 := by omega
  have hsame : ((zone + 12).toNat : Int) = zone + 12 := by omega
  cases asserts with
  | true => simp only [not_consistent_of_asserts, reduceCtorEq, false_and]
  | false =>
      rw [consistent_iff_toNat (isNull_eq_false (hvalue ▸ packed_lt hrangeL htimezone))
        (isNull_eq_false (hother ▸ packed_lt hrangeR htimezone)), hvalue, hother,
        ← highBit_iff hrangeL htimezone hsame, ← highBit_iff hrangeR htimezone hsame,
        packed_lt_iff_earlier hrangeL hrangeR htimezone, eq_self, true_and]

/-- The last day of January and the first one of February, without microseconds. -/
theorem consistent_castAsTimestamp_iff_january :
    ∃ value other, castAsTimestamp (textBytes "2021-01-31 23:59:59+00") = .ok value ∧
      castAsTimestamp (textBytes "2021-02-01 00:00:00+00") = .ok other ∧
      Consistent false value other ((dateTimeOf (textBytes "2021-01-31 23:59:59+00")).Earlier
        (dateTimeOf (textBytes "2021-02-01 00:00:00+00"))) := by
  have hleft : castAsTimestamp (textBytes "2021-01-31 23:59:59+00") =
      .ok 1713202186399000000 := by decide
  have hright : castAsTimestamp (textBytes "2021-02-01 00:00:00+00") =
      .ok 1767202100000000000 := by decide
  exact ⟨_, _, hleft, hright,
    (consistent_castAsTimestamp_iff false hleft hright (by decide) (by decide) (by decide)).mpr
      (by decide)⟩

/-- The last day of a year is not less than the first one of the next year. A day of September
of the next year is less and greater than it at once. -/
theorem newYear_not_consistent :
    castAsTimestamp (textBytes "2020-12-31 00:00:00.000000+00") = .ok 11217202000000000000 ∧
      castAsTimestamp (textBytes "2021-01-01 00:00:00.000000+00") = .ok 903202100000000000 ∧
      castAsTimestamp (textBytes "2021-09-01 00:00:00.000000+00") = .ok 7815202100000000000 ∧
      compareLessThan false 11217202000000000000 903202100000000000 = .ok .cmpFalse ∧
      compareLessThan false 7815202100000000000 11217202000000000000 = .ok .cmpTrue ∧
      compareGreaterThan false 7815202100000000000 11217202000000000000 = .ok .cmpTrue ∧
      ∀ asserts, ¬ Consistent asserts 11217202000000000000 903202100000000000
        ((dateTimeOf (textBytes "2020-12-31 00:00:00.000000+00")).Earlier
          (dateTimeOf (textBytes "2021-01-01 00:00:00.000000+00"))) := by
  have hless : compareLessThan false 11217202000000000000 903202100000000000 =
      .ok .cmpFalse := by decide
  refine ⟨by decide, by decide, by decide, hless, by decide, by decide, ?_⟩
  intro asserts h
  cases asserts with
  | true => exact not_consistent_of_asserts h
  | false =>
      have hholds := h.chronological.mpr (by decide)
      unfold Holds at hholds
      rw [hless] at hholds
      cases hholds

end Comparisons

end TimestampType

end BusTub
