import Mathlib.Data.List.Basic
import Mathlib.Data.List.Range
import Mathlib.Tactic.Common

/-! # Bitmaps in arrays of bytes

Bit `i` of a bitmap is bit `i % 8` of byte `i / 8`. The masks `1 << k` and
`~(1 << k)` write one bit, and clearing the lowest set bit until none is left
counts the bits of a byte.
-/

namespace Bitmap

/-- Bit `i` of the bitmap. -/
def bit (bytes : Nat → BitVec 8) (i : Nat) : Bool := (bytes (i / 8)).getLsbD (i % 8)

/-- Turns of `while (b != 0) { b &= b - 1; }`, at most `fuel` of them. -/
def popLoop : Nat → BitVec 8 → Nat
  | 0, _ => 0
  | fuel + 1, b => if b = 0 then 0 else popLoop fuel (b &&& (b - 1)) + 1

/-- A byte has at most eight bits to clear. -/
theorem popLoop_eight : ∀ b : BitVec 8, popLoop 8 b = (List.range 8).countP b.getLsbD := by
  decide +kernel

theorem and_mask_ne_zero (b : BitVec 8) {k : Nat} (hk : k < 8) :
    (b &&& (1#8 <<< k) ≠ 0) ↔ b.getLsbD k = true := by
  rw [← BitVec.twoPow_eq, BitVec.and_twoPow]
  cases hbit : b.getLsbD k with
  | false => simp
  | true =>
      simp only [if_true, iff_true]
      intro hzero
      have hself := congrArg (fun v => v.getLsbD k) hzero
      simp [hk] at hself

theorem getLsbD_or_mask (b : BitVec 8) {j k : Nat} (hk : k < 8) :
    (b ||| (1#8 <<< k)).getLsbD j = (b.getLsbD j || decide (j = k)) := by
  rw [BitVec.getLsbD_or, ← BitVec.twoPow_eq, BitVec.getLsbD_twoPow]
  simp [hk, eq_comm]

theorem getLsbD_and_mask (b : BitVec 8) {j k : Nat} (hj : j < 8) (hk : k < 8) :
    (b &&& ~~~(1#8 <<< k)).getLsbD j = (b.getLsbD j && decide (j ≠ k)) := by
  rw [BitVec.getLsbD_and, BitVec.getLsbD_not, ← BitVec.twoPow_eq, BitVec.getLsbD_twoPow]
  simp [hk, hj, eq_comm]

variable (bytes : Nat → BitVec 8) (i j : Nat)

/-- Setting bit `i` sets bit `i` and no other. -/
theorem bit_set : bit (Function.update bytes (i / 8) (bytes (i / 8) ||| (1#8 <<< (i % 8)))) j =
    (bit bytes j || decide (j = i)) := by
  unfold bit
  by_cases hbyte : j / 8 = i / 8
  · rw [hbyte, Function.update_self, getLsbD_or_mask _ (Nat.mod_lt _ (by decide))]
    congr 2
    exact propext ⟨fun _ => by omega, fun h => by rw [h]⟩
  · have hne : j ≠ i := fun h => hbyte (by rw [h])
    rw [Function.update_of_ne hbyte]
    simp [hne]

/-- Clearing bit `i` clears bit `i` and no other. -/
theorem bit_clear :
    bit (Function.update bytes (i / 8) (bytes (i / 8) &&& ~~~(1#8 <<< (i % 8)))) j =
      (bit bytes j && decide (j ≠ i)) := by
  unfold bit
  by_cases hbyte : j / 8 = i / 8
  · rw [hbyte, Function.update_self, getLsbD_and_mask _ (Nat.mod_lt _ (by decide))
      (Nat.mod_lt _ (by decide))]
    congr 2
    exact propext ⟨fun h heq => h (by rw [heq]), fun h heq => h (by omega)⟩
  · have hne : j ≠ i := fun h => hbyte (by rw [h])
    rw [Function.update_of_ne hbyte]
    simp [hne]

/-- The bits of the first `n` bytes, counted byte by byte. -/
def popCount : Nat → Nat
  | 0 => 0
  | n + 1 => popCount n + popLoop 8 (bytes n)

theorem popCount_eq (n : Nat) : popCount bytes n = (List.range (8 * n)).countP (bit bytes) := by
  induction n with
  | zero => rfl
  | succ n ih =>
      have hbyte : ∀ k ∈ List.range 8,
          (bit bytes ∘ fun k => 8 * n + k) k = true ↔ (bytes n).getLsbD k = true := by
        intro k hk
        have hlt := List.mem_range.mp hk
        have hdiv : (8 * n + k) / 8 = n := by omega
        have hmod : (8 * n + k) % 8 = k := by omega
        simp only [Function.comp_apply, bit, hdiv, hmod]
      rw [popCount, ih, popLoop_eight, Nat.mul_succ, List.range_add, List.countP_append,
        List.countP_map, List.countP_congr hbyte]

end Bitmap
