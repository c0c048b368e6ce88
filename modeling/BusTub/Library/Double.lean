import Mathlib.Algebra.Order.Ring.Int
import Mathlib.Data.Nat.Log
import Mathlib.Tactic.Common

/-! # Doubles

IEEE 754 doubles by their bits: the order of the numbers, with both zeros at one
place and no place for a NaN, and the double nearest to an integer.
-/

/-- A double by its 64 bits. -/
abbrev Double : Type := UInt64

namespace Double

def isNan (x : Double) : Bool := 2047 * 2 ^ 52 < x.toNat % 2 ^ 63

/-- The place of a number in the order of the numbers. -/
def position (x : Double) : Int :=
  if x.toNat < 2 ^ 63 then x.toNat else -(x.toNat % 2 ^ 63 : Nat)

/-- `==` of doubles. -/
def eq (x y : Double) : Bool := !x.isNan && !y.isNan && x.position == y.position

/-- `<` of doubles. -/
def lt (x y : Double) : Bool := !x.isNan && !y.isNan && decide (x.position < y.position)

/-- The double nearest to a positive integer, the even one of two. -/
def ofPos (n : Nat) : Nat :=
  let exponent := Nat.log 2 n
  if exponent ≤ 52 then (exponent + 1022) * 2 ^ 52 + n * 2 ^ (52 - exponent)
  else
    let unit := 2 ^ (exponent - 52)
    let significand := n / unit
    let up := decide (unit < 2 * (n % unit)) ||
      (decide (unit = 2 * (n % unit)) && significand % 2 == 1)
    (exponent + 1022) * 2 ^ 52 + significand + up.toNat

/-- The conversion of an integer to a double. -/
def ofInt (i : Int) : Double :=
  if i = 0 then 0
  else if 0 < i then UInt64.ofNat (ofPos i.toNat)
  else UInt64.ofNat (2 ^ 63 + ofPos (-i).toNat)

example : (ofInt 1).toNat = 0x3FF0000000000000 := by decide

example : (ofInt (-3)).toNat = 0xC008000000000000 := by decide

end Double
