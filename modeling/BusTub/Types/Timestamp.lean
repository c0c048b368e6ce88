import BusTub.Types.IntegerText
import Mathlib.Data.List.Induction

/-! # The text of a timestamp

`ValueFactory::CastAsTimestamp` packs the fields of a text into a number of 64 bits, and
`TimestampType::ToString` unpacks them. An offset of more than 14 hours, or less than
minus 12, leaves its place in the number.
-/

namespace BusTub

/-- Why a text is no timestamp. -/
inductive TimestampFault where
  /-- "Timestamp format error." -/
  | formatError
  /-- "Timestamp value out of range." -/
  | outOfRange
  deriving DecidableEq, Repr

/-- The conversion `%0wd` of `sprintf` for a number that is not negative. -/
def zeroPadded (width n : Nat) : List UInt8 :=
  List.replicate (width - (digitBytes n).length) 48 ++ digitBytes n

namespace ValueFactory

/-- Bytes at a place of a text. -/
def field (str : List UInt8) (start length : Nat) : List UInt8 := (str.drop start).take length

/-- The table `is_digit`. -/
def digitPlaces : List Bool :=
  [true, true, true, true, false, true, true, false, true, true, false, true, true, false, true,
    true, false, true, true, false, true, true, true, true, true, true, false, true, true]

/-- The separators are in their places, and digits elsewhere. -/
def hasFormat (str : List UInt8) : Bool :=
  str[10]? == some 32 && str[4]? == some 45 && str[7]? == some 45 && str[13]? == some 58 &&
    str[16]? == some 58 && str[19]? == some 46 && (str[26]? == some 43 || str[26]? == some 45) &&
    (List.range 29).all fun i => digitPlaces[i]? != some true || str[i]?.any isDigit

/-- The offset that the conversion `%3d` of `sscanf` reads. -/
def zoneOf (str : List UInt8) : Int :=
  if str[26]? = some 45 then -digitsValue (field str 27 2) else digitsValue (field str 27 2)

/-- `max_day`. -/
def maxDay : List Nat := [0, 31, 28, 31, 30, 31, 30, 31, 31, 30, 31, 30, 31]

/-- `max_day_lunar`. -/
def maxDayLunar : List Nat := [0, 31, 29, 31, 30, 31, 30, 31, 31, 30, 31, 30, 31]

/-- The days of a month. -/
def daysOf (year month : Nat) : Nat :=
  (if (year % 4 = 0 ∧ year % 100 ≠ 0) ∨ year % 400 = 0 then maxDayLunar else maxDay).getD month 0

/-- The fields one behind the other, with 64 bits. -/
def pack (month day timezone year second micro : UInt64) : UInt64 :=
  ((((month * 32 + day) * 27 + timezone) * 10000 + year) * 100000 + second) * 1000000 + micro

/-- `CastAsTimestamp` of the text of a VARCHAR. -/
def castAsTimestamp (str : List UInt8) : Except TimestampFault UInt64 :=
  let str := if str.length = 22 then str.take 19 ++ textBytes ".000000" ++ field str 19 3 else str
  if str.length ≠ 29 then .error .formatError
  else if !hasFormat str then .error .formatError
  else
    -- Behind the checks every conversion of `sscanf` ends at the next separator.
    let year := digitsValue (field str 0 4)
    let month := digitsValue (field str 5 2)
    let day := digitsValue (field str 8 2)
    let hour := digitsValue (field str 11 2)
    let min := digitsValue (field str 14 2)
    let sec := digitsValue (field str 17 2)
    let micro := digitsValue (field str 20 6)
    let tz := zoneOf str
    if year > 9999 ∨ month > 12 ∨ day > 31 ∨ hour > 23 ∨ min > 59 ∨ sec > 59 ∨ micro > 999999 ∨
        day = 0 ∨ month = 0 then .error .outOfRange
    else if day > daysOf year month then .error .outOfRange
    else
      -- `uint32_t timezone`; the check is of the offset.
      let timezone := ((tz + 12) % 2 ^ 32).toNat
      if tz > 26 then .error .formatError
      else .ok (pack (.ofNat month) (.ofNat day) (.ofNat timezone) (.ofNat year)
        (.ofNat (hour * 3600 + min * 60 + sec)) (.ofNat micro))

end ValueFactory

namespace TimestampType

/-- The first `sprintf`. -/
def printDate (year month day hour min sec micro : Nat) : List UInt8 :=
  zeroPadded 4 year ++ 45 :: zeroPadded 2 month ++ 45 :: zeroPadded 2 day ++
    32 :: zeroPadded 2 hour ++ 58 :: zeroPadded 2 min ++ 58 :: zeroPadded 2 sec ++
    46 :: zeroPadded 6 micro

/-- The sign at `str[26]` and the second `sprintf`. -/
def printZone (tz : Int) : List UInt8 := (if 0 ≤ tz then 43 else 45) :: zeroPadded 2 tz.natAbs

/-- `ToString`. -/
def toString (value : UInt64) : List UInt8 :=
  -- `BUSTUB_TIMESTAMP_NULL`.
  if value.toNat = 2 ^ 64 - 1 then textBytes "timestamp_null"
  else
    let tm := value.toNat
    let micro := tm % 1000000
    let tm := tm / 1000000
    let second := tm % 100000
    let sec := second % 60
    let second := second / 60
    let min := second % 60
    let second := second / 60
    let hour := second % 24
    let tm := tm / 100000
    let year := tm % 10000
    let tm := tm / 10000
    let tz : Int := (tm % 27 : Nat) - 12
    let tm := tm / 27
    let day := tm % 32
    let tm := tm / 32
    let month := tm % 2 ^ 16
    -- What is printed of the date has 26 bytes.
    printDate year month day hour min sec micro ++ printZone tz

end TimestampType

/-! ## Digits with zeros in front -/

theorem digitBytes_of_lt {d : Nat} (hd : d < 10) : digitBytes d = [UInt8.ofNat (48 + d)] := by
  unfold digitBytes
  rw [Nat.toDigits_of_lt_base hd]
  unfold charByte
  rw [List.map_singleton, Nat.toNat_digitChar_of_lt_ten hd, Nat.add_comm]

/-- One more digit of a number. -/
theorem digitBytes_append {n d : Nat} (hn : 0 < n) (hd : d < 10) :
    digitBytes (10 * n + d) = digitBytes n ++ digitBytes d := by
  unfold digitBytes
  rw [← List.map_append, Nat.toDigits_append_toDigits (by decide) hn hd]

theorem length_digitBytes_le {n width : Nat} (hwidth : 0 < width) (hn : n < 10 ^ width) :
    (digitBytes n).length ≤ width := by
  unfold digitBytes
  rw [List.length_map]
  exact (Nat.length_toDigits_le_iff (by decide) hwidth).mpr hn

theorem length_zeroPadded {n width : Nat} (hwidth : 0 < width) (hn : n < 10 ^ width) :
    (zeroPadded width n).length = width := by
  have hle := length_digitBytes_le hwidth hn
  unfold zeroPadded
  rw [List.length_append, List.length_replicate]
  omega

theorem zeroPadded_append {n d width : Nat} (hwidth : 0 < width) (hn : n < 10 ^ width)
    (hd : d < 10) :
    zeroPadded (width + 1) (10 * n + d) = zeroPadded width n ++ [UInt8.ofNat (48 + d)] := by
  have hle := length_digitBytes_le hwidth hn
  unfold zeroPadded
  by_cases hzero : n = 0
  · subst hzero
    have hdigits : digitBytes (10 * 0 + d) = [UInt8.ofNat (48 + d)] := by
      rw [Nat.mul_zero, Nat.zero_add, digitBytes_of_lt hd]
    have hnone : digitBytes 0 = [48] := digitBytes_of_lt (by decide)
    rw [hdigits, hnone, List.length_singleton, List.length_singleton, Nat.add_sub_cancel,
      ← List.replicate_succ', Nat.sub_add_cancel hwidth]
  · rw [digitBytes_append (Nat.pos_of_ne_zero hzero) hd, digitBytes_of_lt hd, List.length_append,
      List.length_singleton, Nat.add_sub_add_right, List.append_assoc]

theorem digitsValue_append (digits : List UInt8) (digit : UInt8) :
    digitsValue (digits ++ [digit]) = 10 * digitsValue digits + (digit.toNat - 48) := by
  unfold digitsValue
  rw [List.foldl_append]
  rfl

theorem digitsValue_lt {digits : List UInt8} (h : digits.all isDigit = true) :
    digitsValue digits < 10 ^ digits.length := by
  induction digits using List.reverseRecOn with
  | nil => exact Nat.one_pos
  | append_singleton digits digit ih =>
      rw [List.all_append, Bool.and_eq_true] at h
      have hdigit : digit.toNat ≤ 57 := by
        have := (Bool.and_eq_true _ _).mp (List.all_eq_true.mp h.2 digit List.mem_cons_self)
        exact UInt8.le_iff_toNat_le.mp (of_decide_eq_true this.2)
      have hlt := ih h.1
      rw [digitsValue_append, List.length_append, List.length_singleton, pow_succ]
      omega

/-- Digits are printed as they are read. -/
theorem zeroPadded_digitsValue {digits : List UInt8} (hne : digits ≠ [])
    (h : digits.all isDigit = true) : zeroPadded digits.length (digitsValue digits) = digits := by
  induction digits using List.reverseRecOn with
  | nil => exact absurd rfl hne
  | append_singleton digits digit ih =>
      rw [List.all_append, Bool.and_eq_true] at h
      have hdigit := (Bool.and_eq_true _ _).mp (List.all_eq_true.mp h.2 digit List.mem_cons_self)
      have hlow : 48 ≤ digit.toNat := UInt8.le_iff_toNat_le.mp (of_decide_eq_true hdigit.1)
      have hhigh : digit.toNat ≤ 57 := UInt8.le_iff_toNat_le.mp (of_decide_eq_true hdigit.2)
      -- the last digit is the remainder by ten, the digits before it are the quotient
      have hbyte : UInt8.ofNat (48 + (digit.toNat - 48)) = digit := by
        rw [Nat.add_sub_cancel' hlow, UInt8.ofNat_toNat]
      rw [digitsValue_append, List.length_append, List.length_singleton]
      by_cases hnil : digits = []
      · subst hnil
        have hdigits : digitBytes (digit.toNat - 48) = [digit] := by
          rw [digitBytes_of_lt (by omega), hbyte]
        have hvalue : 10 * digitsValue [] + (digit.toNat - 48) = digit.toNat - 48 := by
          unfold digitsValue
          simp
        unfold zeroPadded
        rw [hvalue, hdigits]
        rfl
      · rw [zeroPadded_append (List.length_pos_iff.mpr hnil) (digitsValue_lt h.1) (by omega),
          ih hnil h.1, hbyte]

theorem digitsValue_zeroPadded (width n : Nat) : digitsValue (zeroPadded width n) = n := by
  have hzeros : ∀ count, digitsValue (List.replicate count 48) = 0 := by
    intro count
    induction count with
    | zero => rfl
    | succ count ih => rw [List.replicate_succ', digitsValue_append, ih]; rfl
  have happend : digitsValue (zeroPadded width n) = digitsValue (digitBytes n) := by
    have hzero := hzeros (width - (digitBytes n).length)
    unfold zeroPadded digitsValue at *
    rw [List.foldl_append, hzero]
  rw [happend, digitsValue_digitBytes]

/-! ## The form of a text -/

namespace ValueFactory

variable {str : List UInt8} {byte : UInt8}

theorem drop_eq_field (str : List UInt8) (start length : Nat) :
    str.drop start = field str start length ++ str.drop (start + length) := by
  unfold field
  rw [← List.drop_drop, List.take_append_drop]

theorem drop_eq_cons {k : Nat} (h : str[k]? = some byte) :
    str.drop k = byte :: str.drop (k + 1) := by
  obtain ⟨hk, hbyte⟩ := List.getElem?_eq_some_iff.mp h
  rw [List.drop_eq_getElem_cons hk, hbyte]

/-- The separators of a text, and the sign of the offset. -/
structure Separators (str : List UInt8) (sign : UInt8) : Prop where
  year : str[4]? = some 45
  month : str[7]? = some 45
  day : str[10]? = some 32
  hour : str[13]? = some 58
  min : str[16]? = some 58
  sec : str[19]? = some 46
  sign : str[26]? = some sign

theorem separators_of_hasFormat (h : hasFormat str = true) :
    ∃ sign, (sign = 43 ∨ sign = 45) ∧ Separators str sign := by
  unfold hasFormat at h
  simp only [Bool.and_eq_true, Bool.or_eq_true, beq_iff_eq] at h
  obtain ⟨⟨⟨⟨⟨⟨⟨hday, hyear⟩, hmonth⟩, hhour⟩, hmin⟩, hsec⟩, hsign⟩, -⟩ := h
  rcases hsign with hsign | hsign
  · exact ⟨43, Or.inl rfl, hyear, hmonth, hday, hhour, hmin, hsec, hsign⟩
  · exact ⟨45, Or.inr rfl, hyear, hmonth, hday, hhour, hmin, hsec, hsign⟩

/-- There are digits where the table has them. -/
theorem field_all (h : hasFormat str = true) (hlength : str.length = 29) (start length : Nat)
    (hplaces : ∀ i < length, digitPlaces[start + i]? = some true) :
    (field str start length).all isDigit = true ∧ (field str start length).length = length := by
  have hbound : ∀ i < length, start + i < 29 :=
    fun i hi => (List.getElem?_eq_some_iff.mp (hplaces i hi)).1
  unfold hasFormat at h
  simp only [Bool.and_eq_true] at h
  have htable := List.all_eq_true.mp h.2
  constructor
  · apply List.all_eq_true.mpr
    intro byte hbyte
    obtain ⟨i, hi⟩ := List.mem_iff_getElem?.mp hbyte
    unfold field at hi
    rw [List.getElem?_take] at hi
    split at hi
    next hlt =>
      rw [List.getElem?_drop] at hi
      -- the table of the format marks the place as one of a digit
      have hplace := htable (start + i) (List.mem_range.mpr (hbound i hlt))
      rw [hplaces i hlt, hi] at hplace
      simpa using hplace
    next => cases hi
  · unfold field
    rw [List.length_take, List.length_drop, hlength]
    apply Nat.min_eq_left
    by_cases hzero : length = 0
    · omega
    · have := hbound (length - 1) (by omega)
      omega

theorem drop_sign (hlength : str.length = 29) {sign : UInt8} (h : Separators str sign) :
    str.drop 26 = sign :: field str 27 2 := by
  have hend : str.drop 29 = [] := List.drop_eq_nil_of_le hlength.le
  rw [drop_eq_cons h.sign, drop_eq_field str 27 2, hend, List.append_nil]

/-- A text of the form is its fields and separators. -/
theorem eq_fields (hlength : str.length = 29) {sign : UInt8} (h : Separators str sign) :
    str = field str 0 4 ++ 45 :: field str 5 2 ++ 45 :: field str 8 2 ++ 32 :: field str 11 2 ++
      58 :: field str 14 2 ++ 58 :: field str 17 2 ++ 46 :: field str 20 6 ++
      sign :: field str 27 2 := by
  have hzone := drop_sign hlength h
  have hmicro : str.drop 19 = 46 :: field str 20 6 ++ sign :: field str 27 2 := by
    rw [drop_eq_cons h.sec, drop_eq_field str 20 6, hzone, List.cons_append]
  have hsec : str.drop 16 = 58 :: field str 17 2 ++ str.drop 19 := by
    rw [drop_eq_cons h.min, drop_eq_field str 17 2, List.cons_append]
  have hmin : str.drop 13 = 58 :: field str 14 2 ++ str.drop 16 := by
    rw [drop_eq_cons h.hour, drop_eq_field str 14 2, List.cons_append]
  have hhour : str.drop 10 = 32 :: field str 11 2 ++ str.drop 13 := by
    rw [drop_eq_cons h.day, drop_eq_field str 11 2, List.cons_append]
  have hday : str.drop 7 = 45 :: field str 8 2 ++ str.drop 10 := by
    rw [drop_eq_cons h.month, drop_eq_field str 8 2, List.cons_append]
  have hmonth : str.drop 4 = 45 :: field str 5 2 ++ str.drop 7 := by
    rw [drop_eq_cons h.year, drop_eq_field str 5 2, List.cons_append]
  have hyear := drop_eq_field str 0 4
  rw [List.drop_zero, hmonth, hday, hhour, hmin, hsec, hmicro] at hyear
  simpa only [List.append_assoc, List.cons_append] using hyear

/-- A field is printed as it was. -/
theorem zeroPadded_field (h : hasFormat str = true) (hlength : str.length = 29)
    (start : Nat) {length : Nat} (hpos : 0 < length)
    (hplaces : ∀ i < length, digitPlaces[start + i]? = some true) :
    zeroPadded length (digitsValue (field str start length)) = field str start length := by
  obtain ⟨hall, hfield⟩ := field_all h hlength start length hplaces
  have hne : field str start length ≠ [] := List.ne_nil_of_length_pos (hpos.trans_eq hfield.symm)
  have hprinted := zeroPadded_digitsValue hne hall
  rw [hfield] at hprinted
  exact hprinted

/-- What is known of a text that is accepted. -/
structure Accepted (str : List UInt8) (value : UInt64) : Prop where
  format : hasFormat str = true
  month : digitsValue (field str 5 2) ≤ 12
  day : digitsValue (field str 8 2) ≤ 31
  hour : digitsValue (field str 11 2) ≤ 23
  min : digitsValue (field str 14 2) ≤ 59
  sec : digitsValue (field str 17 2) ≤ 59
  value : value = pack (.ofNat (digitsValue (field str 5 2))) (.ofNat (digitsValue (field str 8 2)))
    (.ofNat ((zoneOf str + 12) % 2 ^ 32).toNat) (.ofNat (digitsValue (field str 0 4)))
    (.ofNat (digitsValue (field str 11 2) * 3600 + digitsValue (field str 14 2) * 60 +
      digitsValue (field str 17 2))) (.ofNat (digitsValue (field str 20 6)))

theorem accepted_of_castAsTimestamp (hlength : str.length = 29) {value : UInt64}
    (h : castAsTimestamp str = .ok value) : Accepted str value := by
  have hlong : (if str.length = 22 then str.take 19 ++ textBytes ".000000" ++ field str 19 3
      else str) = str := if_neg (by omega)
  unfold castAsTimestamp at h
  simp only [hlong] at h
  split at h
  next => cases h
  next =>
    split at h
    next => cases h
    next hformat =>
      split at h
      next => cases h
      next hranges =>
        split at h
        next => cases h
        next =>
          split at h
          next => cases h
          next =>
            simp only [not_or, gt_iff_lt, not_lt] at hranges
            obtain ⟨-, hmonth, hday, hhour, hmin, hsec, -⟩ := hranges
            refine ⟨by simpa using hformat, hmonth, hday, hhour, hmin, hsec, ?_⟩
            exact (Except.ok.inj h).symm

theorem toNat_pack (month day timezone year second micro : Nat) :
    (pack (.ofNat month) (.ofNat day) (.ofNat timezone) (.ofNat year) (.ofNat second)
      (.ofNat micro)).toNat =
      (((((month * 32 + day) * 27 + timezone) * 10000 + year) * 100000 + second) * 1000000 +
        micro) % 2 ^ 64 := by
  unfold pack
  rw [← UInt64.toNat_ofNat']
  congr 1
  simp only [UInt64.ofNat_add, UInt64.ofNat_mul]
  rfl

/-- The fields of a text with an offset from minus 12 to 14 hours are in their places. -/
theorem Accepted.toNat_eq {value : UInt64} (h : Accepted str value) (hlength : str.length = 29)
    (hlow : -12 ≤ zoneOf str) (hhigh : zoneOf str ≤ 14) :
    digitsValue (field str 0 4) < 10000 ∧ digitsValue (field str 20 6) < 1000000 ∧
      value.toNat = ((((digitsValue (field str 5 2) * 32 + digitsValue (field str 8 2)) * 27 +
        (zoneOf str + 12).toNat) * 10000 + digitsValue (field str 0 4)) * 100000 +
        (digitsValue (field str 11 2) * 3600 + digitsValue (field str 14 2) * 60 +
          digitsValue (field str 17 2))) * 1000000 + digitsValue (field str 20 6) := by
  obtain ⟨hformat, hmonth, hday, hhour, hmin, hsec, hvalue⟩ := h
  -- every field has as many digits as its place in the packed value takes
  have hyear : digitsValue (field str 0 4) < 10000 := by
    obtain ⟨hall, hfield⟩ := field_all hformat hlength 0 4 (by decide)
    have := digitsValue_lt hall
    rwa [hfield] at this
  have hmicro : digitsValue (field str 20 6) < 1000000 := by
    obtain ⟨hall, hfield⟩ := field_all hformat hlength 20 6 (by decide)
    have := digitsValue_lt hall
    rwa [hfield] at this
  have hwrap : (zoneOf str + 12) % 2 ^ 32 = zoneOf str + 12 := by omega
  have hnat := congrArg UInt64.toNat hvalue
  rw [toNat_pack, hwrap, Nat.mod_eq_of_lt (by omega)] at hnat
  exact ⟨hyear, hmicro, hnat⟩

end ValueFactory

/-! ## The round trip -/

namespace TimestampType

open ValueFactory

/-- The offset in a number, from `-12` to `14`. -/
def zone (value : UInt64) : Int := (value.toNat / 1000000 / 100000 / 10000 % 27 : Nat) - 12

theorem length_printDate {year month day hour min sec micro : Nat} (hyear : year < 10 ^ 4)
    (hmonth : month < 10 ^ 2) (hday : day < 10 ^ 2) (hhour : hour < 10 ^ 2) (hmin : min < 10 ^ 2)
    (hsec : sec < 10 ^ 2) (hmicro : micro < 10 ^ 6) :
    (printDate year month day hour min sec micro).length = 26 := by
  unfold printDate
  simp only [List.length_append, List.length_cons, length_zeroPadded Nat.two_pos hmonth,
    length_zeroPadded Nat.two_pos hday, length_zeroPadded Nat.two_pos hhour,
    length_zeroPadded Nat.two_pos hmin, length_zeroPadded Nat.two_pos hsec,
    length_zeroPadded (by decide) hyear, length_zeroPadded (by decide) hmicro]

/-- A number that is not NULL is printed with 26 bytes for the date, and the offset. -/
theorem exists_toString_eq {value : UInt64} (hsome : value.toNat ≠ 2 ^ 64 - 1) :
    ∃ date : List UInt8, date.length = 26 ∧ toString value = date ++ printZone (zone value) := by
  have hlt := value.toNat_lt
  have hmonth : value.toNat / 1000000 / 100000 / 10000 / 27 / 32 % 2 ^ 16 < 10 ^ 2 := by omega
  unfold toString
  rw [if_neg hsome]
  refine ⟨_, length_printDate ?_ hmonth ?_ ?_ ?_ ?_ ?_, rfl⟩
  all_goals omega

theorem add_div_of_lt {a r d : Nat} (h : d < r) : (a * r + d) / r = a := by
  rw [Nat.mul_comm, Nat.mul_add_div (Nat.zero_lt_of_lt h), Nat.div_eq_of_lt h, Nat.add_zero]

theorem add_mod_of_lt {a r d : Nat} (h : d < r) : (a * r + d) % r = d := by
  rw [Nat.mul_comm, Nat.mul_add_mod, Nat.mod_eq_of_lt h]

/-- Fields in their places are unpacked as they were packed. -/
theorem toString_of_fields {value : UInt64}
    {year month day hour min sec micro timezone : Nat}
    (hvalue : value.toNat = ((((month * 32 + day) * 27 + timezone) * 10000 + year) * 100000 +
      (hour * 3600 + min * 60 + sec)) * 1000000 + micro)
    (hyear : year < 10000) (hmonth : month < 2 ^ 16) (hday : day < 32) (hhour : hour < 24)
    (hmin : min < 60) (hsec : sec < 60) (hmicro : micro < 1000000) (hzone : timezone < 27)
    (hsome : value.toNat ≠ 2 ^ 64 - 1) :
    toString value =
      printDate year month day hour min sec micro ++ printZone ((timezone : Int) - 12) := by
  have hsecond : hour * 3600 + min * 60 + sec = (hour * 60 + min) * 60 + sec := by omega
  have hseconds : (hour * 60 + min) * 60 + sec < 100000 := by omega
  unfold toString
  rw [if_neg hsome, hvalue, hsecond]
  simp only [add_div_of_lt hmicro, add_mod_of_lt hmicro, add_div_of_lt hseconds,
    add_mod_of_lt hseconds, add_div_of_lt hsec, add_mod_of_lt hsec, add_div_of_lt hmin,
    add_mod_of_lt hmin, add_div_of_lt hyear, add_mod_of_lt hyear, add_div_of_lt hzone,
    add_mod_of_lt hzone, add_div_of_lt hday, add_mod_of_lt hday, Nat.mod_eq_of_lt hhour,
    Nat.mod_eq_of_lt hmonth]

theorem zone_bounds (value : UInt64) : -12 ≤ zone value ∧ zone value ≤ 14 := by
  unfold zone
  omega

variable {str : List UInt8} {value : UInt64}

/-- The offset that is printed is the one that was read. -/
theorem zoneOf_eq_of_toString_eq (hlength : str.length = 29) {sign : UInt8}
    (hsign : Separators str sign) (h : toString value = str) :
    zoneOf str = zone value ∧ sign = if 0 ≤ zone value then 43 else 45 := by
  -- the text of the null has another length
  have hsome : value.toNat ≠ 2 ^ 64 - 1 := by
    intro hnull
    unfold toString at h
    rw [if_pos hnull] at h
    rw [← h] at hlength
    exact absurd hlength (by decide)
  obtain ⟨date, hdate, hprinted⟩ := exists_toString_eq hsome
  have hsplit : date ++ printZone (zone value) = str.take 26 ++ str.drop 26 := by
    rw [← hprinted, h, List.take_append_drop]
  have htake : (str.take 26).length = 26 := by
    rw [List.length_take, hlength]
    rfl
  -- the date takes the first 26 bytes in both, so that the zones are the same bytes
  have hzone := (List.append_inj hsplit (hdate.trans htake.symm)).2
  rw [drop_sign hlength hsign] at hzone
  unfold printZone at hzone
  obtain ⟨hbyte, hdigits⟩ := List.cons.inj hzone
  refine ⟨?_, hbyte.symm⟩
  have hvalue : digitsValue (field str 27 2) = (zone value).natAbs := by
    rw [← hdigits, digitsValue_zeroPadded]
  unfold zoneOf
  rw [hsign.sign, ← hbyte, hvalue]
  by_cases hneg : 0 ≤ zone value
  · rw [if_pos hneg, if_neg (by decide)]
    omega
  · rw [if_neg hneg, if_pos rfl]
    omega

/-- A text with an offset from minus 12 to 14 hours is printed as it was. -/
theorem toString_eq_of_zone (hlength : str.length = 29) (haccepted : Accepted str value)
    (hlow : -12 ≤ zoneOf str) (hhigh : zoneOf str ≤ 14)
    (hminus : ¬ (str[26]? = some 45 ∧ zoneOf str = 0)) : toString value = str := by
  obtain ⟨hyear, hmicro, hnat⟩ := haccepted.toNat_eq hlength hlow hhigh
  obtain ⟨hformat, hmonth, hday, hhour, hmin, hsec, -⟩ := haccepted
  obtain ⟨sign, hcases, hsign⟩ := separators_of_hasFormat hformat
  have hwrap : ((zoneOf str + 12).toNat : Int) = zoneOf str + 12 := by omega
  rw [toString_of_fields hnat hyear (by omega) (by omega) (by omega) (by omega) (by omega) hmicro
    (by omega) (by omega), hwrap, Int.add_sub_cancel]
  -- a zone of -00 would be printed as +00
  have hzone : printZone (zoneOf str) = sign :: field str 27 2 := by
    have hprinted := zeroPadded_field hformat hlength 27 Nat.two_pos (by decide)
    unfold printZone
    unfold zoneOf at hminus ⊢
    rw [hsign.sign] at hminus ⊢
    rcases hcases with rfl | rfl
    · have hplus : ¬ (some (43 : UInt8) = some 45) := by decide
      rw [if_neg hplus, if_pos (Int.natCast_nonneg _), Int.natAbs_natCast, hprinted]
    · rw [if_pos rfl] at hminus ⊢
      have hne : -(digitsValue (field str 27 2) : Int) ≠ 0 := fun hzero => hminus ⟨rfl, hzero⟩
      rw [if_neg (by omega), Int.natAbs_neg, Int.natAbs_natCast, hprinted]
  rw [hzone]
  unfold printDate
  rw [zeroPadded_field hformat hlength 0 (by decide) (by decide),
    zeroPadded_field hformat hlength 5 Nat.two_pos (by decide),
    zeroPadded_field hformat hlength 8 Nat.two_pos (by decide),
    zeroPadded_field hformat hlength 11 Nat.two_pos (by decide),
    zeroPadded_field hformat hlength 14 Nat.two_pos (by decide),
    zeroPadded_field hformat hlength 17 Nat.two_pos (by decide),
    zeroPadded_field hformat hlength 20 (by decide) (by decide)]
  exact (eq_fields hlength hsign).symm

/-- A text that is accepted comes back exactly when its offset has a place in the number, and no
minus in front of zero. -/
theorem toString_castAsTimestamp_iff (hlength : str.length = 29)
    (h : castAsTimestamp str = .ok value) :
    toString value = str ↔ -12 ≤ zoneOf str ∧ zoneOf str ≤ 14 ∧
      ¬ (str[26]? = some 45 ∧ zoneOf str = 0) := by
  have haccepted := accepted_of_castAsTimestamp hlength h
  constructor
  · intro hprinted
    obtain ⟨sign, -, hsign⟩ := separators_of_hasFormat haccepted.format
    obtain ⟨hzone, hbyte⟩ := zoneOf_eq_of_toString_eq hlength hsign hprinted
    obtain ⟨hlow, hhigh⟩ := zone_bounds value
    refine ⟨hzone ▸ hlow, hzone ▸ hhigh, ?_⟩
    rintro ⟨hminus, hzero⟩
    rw [hsign.sign, Option.some.injEq, hbyte, ← hzone, hzero] at hminus
    exact absurd hminus (by decide)
  · rintro ⟨hlow, hhigh, hminus⟩
    exact toString_eq_of_zone hlength haccepted hlow hhigh hminus

/-- A text with the offset `+14`. -/
theorem toString_castAsTimestamp_iff_fourteen :
    ∃ value, castAsTimestamp (textBytes "2021-02-28 23:59:59.999999+14") = .ok value ∧
      toString value = textBytes "2021-02-28 23:59:59.999999+14" := by
  have hcast : castAsTimestamp (textBytes "2021-02-28 23:59:59.999999+14") =
      .ok 2510202186399999999 := by decide
  exact ⟨_, hcast, (toString_castAsTimestamp_iff rfl hcast).mpr (by decide)⟩

/-- The offset `+15` turns into `-12` and one more day. -/
theorem toString_castAsTimestamp_fifteen :
    ∃ value, castAsTimestamp (textBytes "2021-01-01 00:00:00.000000+15") = .ok value ∧
      toString value = textBytes "2021-01-02 00:00:00.000000-12" ∧
      toString value ≠ textBytes "2021-01-01 00:00:00.000000+15" := by
  have hcast : castAsTimestamp (textBytes "2021-01-01 00:00:00.000000+15") =
      .ok 918202100000000000 := by decide
  exact ⟨_, hcast, by decide, by decide⟩

end TimestampType

end BusTub
