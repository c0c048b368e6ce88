import BusTub.Types.IntegerTypes
import Mathlib.Data.List.TakeWhile

/-! # Decimal texts of integers

A literal is a sign, which may be missing, and digits. `std::to_string` writes one
for every integer, and `stringToInt` reads every literal that fits.
-/

namespace BusTub

open WrapAround

/-- What follows the sign. -/
def unsigned (str : List UInt8) : List UInt8 :=
  if str.head? = some 45 ∨ str.head? = some 43 then str.drop 1 else str

/-- The integer that a decimal literal stands for. -/
def integerLiteral (str : List UInt8) : Option Int :=
  if unsigned str ≠ [] ∧ (unsigned str).all isDigit = true then
    some (if str.head? = some 45 then -digitsValue (unsigned str) else digitsValue (unsigned str))
  else none

/-- The byte of an ASCII character. -/
def charByte (c : Char) : UInt8 := UInt8.ofNat c.toNat

theorem textBytes_eq (text : String) : textBytes text = text.toList.map charByte := rfl

theorem toNat_charByte {c : Char} (h : c.isDigit = true) : (charByte c).toNat = c.toNat := by
  have hhigh : c.toNat ≤ 57 := (Char.isDigit_iff_toNat.mp h).2
  unfold charByte
  rw [UInt8.toNat_ofNat']
  omega

theorem isDigit_charByte {c : Char} (h : c.isDigit = true) : isDigit (charByte c) = true := by
  unfold isDigit
  rw [Bool.and_eq_true, decide_eq_true_eq, decide_eq_true_eq, UInt8.le_iff_toNat_le,
    UInt8.le_iff_toNat_le, toNat_charByte h]
  exact Char.isDigit_iff_toNat.mp h

/-- The digits of a number as bytes. -/
def digitBytes (n : Nat) : List UInt8 := (Nat.toDigits 10 n).map charByte

theorem digitBytes_ne_nil (n : Nat) : digitBytes n ≠ [] := by
  unfold digitBytes
  rw [Ne, List.map_eq_nil_iff]
  exact Nat.toDigits_ne_nil

theorem digitBytes_all (n : Nat) : (digitBytes n).all isDigit = true := by
  unfold digitBytes
  rw [List.all_eq_true]
  intro byte hbyte
  obtain ⟨c, hc, rfl⟩ := List.mem_map.mp hbyte
  exact isDigit_charByte (Nat.isDigit_of_mem_toDigits (by decide) (by decide) hc)

theorem digitsValue_foldl (digits : List Char) (hdigits : ∀ c ∈ digits, c.isDigit = true)
    (value : Nat) :
    (digits.map charByte).foldl (fun value byte => 10 * value + (byte.toNat - 48)) value =
      Nat.ofDigitChars 10 digits value := by
  induction digits generalizing value with
  | nil => rfl
  | cons c digits ih =>
      rw [List.map_cons, List.foldl_cons, Nat.ofDigitChars_cons,
        toNat_charByte (hdigits c List.mem_cons_self)]
      exact ih (fun c hc => hdigits c (List.mem_cons_of_mem _ hc)) _

/-- The digits of a number are read back. -/
theorem digitsValue_digitBytes (n : Nat) : digitsValue (digitBytes n) = n := by
  unfold digitsValue digitBytes
  rw [digitsValue_foldl _ (fun c hc => Nat.isDigit_of_mem_toDigits (by decide) (by decide) hc)]
  exact Nat.ofDigitChars_ten_toDigits

/-- A digit is no sign and no space. -/
theorem isDigit_facts {byte : UInt8} (h : isDigit byte = true) :
    byte ≠ 45 ∧ byte ≠ 43 ∧ isSpace byte = false := by
  unfold isDigit at h
  unfold isSpace
  rw [Bool.and_eq_true, decide_eq_true_eq, decide_eq_true_eq, UInt8.le_iff_toNat_le,
    UInt8.le_iff_toNat_le] at h
  obtain ⟨hlow, hhigh⟩ := h
  refine ⟨?_, ?_, ?_⟩
  · rintro rfl
    exact absurd hlow (by decide)
  · rintro rfl
    exact absurd hlow (by decide)
  · simp only [Bool.or_eq_false_iff, Bool.and_eq_false_iff, beq_eq_false_iff_ne,
      decide_eq_false_iff_not, UInt8.le_iff_toNat_le, ne_eq]
    have h32 : (48 : UInt8).toNat = 48 := rfl
    have h13 : (13 : UInt8).toNat = 13 := rfl
    constructor
    · rintro rfl
      exact absurd hlow (by decide)
    · right
      omega

theorem head?_ne_of_all {digits : List UInt8} (h : digits.all isDigit = true) (byte : UInt8)
    (hbyte : isDigit byte = false) : digits.head? ≠ some byte := by
  intro hhead
  have hmem := List.mem_of_mem_head? (Option.mem_def.mpr hhead)
  rw [List.all_eq_true.mp h byte hmem] at hbyte
  cases hbyte

/-- `std::to_string` of a natural number. -/
theorem textBytes_natCast (n : Nat) : textBytes s!"{(n : Int)}" = digitBytes n := by
  have htext : s!"{(n : Int)}" = n.repr := rfl
  rw [htext, textBytes_eq, Nat.toList_repr]
  rfl

/-- `std::to_string` of a negative number. -/
theorem textBytes_negSucc (n : Nat) :
    textBytes s!"{Int.negSucc n}" = 45 :: digitBytes (n + 1) := by
  have htext : s!"{Int.negSucc n}" = "-" ++ (n + 1).repr := rfl
  rw [htext, textBytes_eq, String.toList_append, Nat.toList_repr, List.map_append]
  rfl

theorem unsigned_of_all {digits : List UInt8} (h : digits.all isDigit = true) :
    unsigned digits = digits := by
  unfold unsigned
  apply if_neg
  rintro (hsign | hsign)
  · exact head?_ne_of_all h 45 rfl hsign
  · exact head?_ne_of_all h 43 rfl hsign

/-- `std::to_string` writes a literal of the integer. -/
theorem integerLiteral_textBytes (i : Int) : integerLiteral (textBytes s!"{i}") = some i := by
  cases i with
  | ofNat n =>
      have hall := digitBytes_all n
      rw [Int.ofNat_eq_natCast, textBytes_natCast]
      unfold integerLiteral
      rw [unsigned_of_all hall, if_pos ⟨digitBytes_ne_nil n, hall⟩,
        if_neg (head?_ne_of_all hall 45 rfl), digitsValue_digitBytes]
  | negSucc n =>
      have hall := digitBytes_all (n + 1)
      have hunsigned : unsigned (45 :: digitBytes (n + 1)) = digitBytes (n + 1) := rfl
      rw [textBytes_negSucc]
      unfold integerLiteral
      rw [hunsigned, if_pos ⟨digitBytes_ne_nil (n + 1), hall⟩, if_pos List.head?_cons,
        digitsValue_digitBytes]
      rfl

/-- The integer at the beginning of a text, behind spaces. -/
def leadingInteger (str : List UInt8) : Option Int :=
  let str := str.dropWhile isSpace
  let digits := (unsigned str).takeWhile isDigit
  if digits = [] then none
  else some (if str.head? = some 45 then -digitsValue digits else digitsValue digits)

/-- What is read depends on the width only by the range. -/
theorem stringToInt_eq (width : Nat) (str : List UInt8) :
    stringToInt width str =
      (leadingInteger str).elim (.error .invalidArgument) fun n =>
        if Fits width n then .ok n else .error .outOfRange := by
  have hnot : ∀ n : Int, n < -2 ^ (width - 1) ∨ 2 ^ (width - 1) ≤ n ↔ ¬ Fits width n := by
    intro n
    unfold Fits
    rw [not_and_or, not_le, not_lt]
  have hunsigned : ∀ text : List UInt8,
      (if (text.head? == some 45 || text.head? == some 43) = true then text.drop 1 else text) =
        unsigned text := by
    intro text
    simp only [Bool.or_eq_true, beq_iff_eq]
    rfl
  unfold stringToInt leadingInteger
  simp only [hunsigned, beq_iff_eq, hnot, ite_not]
  split
  next => rfl
  next => rfl

theorem fits_of_stringToInt {width : Nat} {str : List UInt8} {n : Int}
    (h : stringToInt width str = .ok n) : leadingInteger str = some n ∧ Fits width n := by
  rw [stringToInt_eq] at h
  cases hread : leadingInteger str with
  | none =>
      rw [hread] at h
      cases h
  | some m =>
      rw [hread, Option.elim_some] at h
      split at h
      next hfits =>
        cases h
        exact ⟨rfl, hfits⟩
      next => cases h

/-- A literal is read to its end. -/
theorem leadingInteger_of_literal {str : List UInt8} {i : Int} (h : integerLiteral str = some i) :
    leadingInteger str = some i := by
  unfold integerLiteral at h
  split at h
  next hdigits =>
    obtain ⟨hne, hall⟩ := hdigits
    have hspace : str.dropWhile isSpace = str := by
      cases str with
      | nil => rfl
      | cons byte rest =>
          rw [List.dropWhile_cons_of_neg]
          rw [Bool.not_eq_true]
          by_cases hsign : byte = 45 ∨ byte = 43
          · rcases hsign with rfl | rfl <;> rfl
          · have hself : unsigned (byte :: rest) = byte :: rest :=
              if_neg (by simpa using hsign)
            rw [hself] at hall
            exact (isDigit_facts (List.all_eq_true.mp hall byte List.mem_cons_self)).2.2
    have htake : (unsigned str).takeWhile isDigit = unsigned str :=
      List.takeWhile_eq_self_iff.mpr (List.all_eq_true.mp hall)
    unfold leadingInteger
    simp only [hspace, htake, if_neg hne]
    exact h
  next => cases h

/-- `std::stoi` and `std::stoll` read a literal whose integer fits. -/
theorem stringToInt_of_literal {width : Nat} {str : List UInt8} {i : Int}
    (h : integerLiteral str = some i) :
    stringToInt width str = if Fits width i then .ok i else .error .outOfRange := by
  rw [stringToInt_eq, leadingInteger_of_literal h]
  rfl

end BusTub
