import Mathlib.Algebra.Order.Ring.Int
import Mathlib.Data.List.Basic
import Mathlib.Tactic.Common

/-! # Little-endian numbers

The bytes of a number, lowest first, and the number that bytes stand for.
-/

/-- The lowest `width` bytes of a number. -/
def toBytes : Nat → Nat → List UInt8
  | 0, _ => []
  | width + 1, value => UInt8.ofNat value :: toBytes width (value / 2 ^ 8)

/-- The number that bytes stand for. -/
def ofBytes : List UInt8 → Nat
  | [] => 0
  | byte :: rest => byte.toNat + 2 ^ 8 * ofBytes rest

@[simp] theorem length_toBytes (width value : Nat) : (toBytes width value).length = width := by
  induction width generalizing value with
  | zero => rfl
  | succ width ih => rw [toBytes, List.length_cons, ih]

/-- Bytes lose what does not fit into them and nothing else. -/
theorem ofBytes_toBytes (width value : Nat) :
    ofBytes (toBytes width value) = value % 2 ^ (8 * width) := by
  induction width generalizing value with
  | zero => simp [toBytes, ofBytes, Nat.mod_one]
  | succ width ih =>
      have hpow : 2 ^ (8 * (width + 1)) = 2 ^ 8 * 2 ^ (8 * width) := by
        rw [Nat.mul_add, Nat.pow_add, Nat.mul_comm]
      rw [toBytes, ofBytes, ih, hpow, Nat.mod_mul]
      rfl

theorem ofBytes_toBytes_of_lt {width value : Nat} (hfits : value < 2 ^ (8 * width)) :
    ofBytes (toBytes width value) = value := by
  rw [ofBytes_toBytes, Nat.mod_eq_of_lt hfits]
