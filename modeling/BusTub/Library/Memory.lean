import Mathlib.Algebra.Order.Ring.Int
import Mathlib.Data.List.Basic
import Mathlib.Data.List.Range
import Mathlib.Tactic.Common

/-! # Byte memory

Memory from an address on, with the block operations `memcpy` and `memmove` and
little-endian 32-bit words. Every operation comes with what a read sees after it,
inside the written range and outside of it.
-/

/-- The bytes from an address on. -/
def Memory : Type := Nat → UInt8

namespace Memory

/-- Memory after a `memset` to zero. -/
def zeros : Memory := fun _ => 0

/-- `n` bytes from an address on. -/
def read (m : Memory) (addr n : Nat) : List UInt8 := (List.range n).map (fun i => m (addr + i))

/-- `memcpy` of the bytes to an address. -/
def write (m : Memory) (addr : Nat) (bytes : List UInt8) : Memory := fun a =>
  if addr ≤ a ∧ a < addr + bytes.length then bytes.getD (a - addr) 0 else m a

/-- `memmove` of `n` bytes: all of them are read before the first is written. -/
def move (m : Memory) (dst src n : Nat) : Memory := fun a =>
  if dst ≤ a ∧ a < dst + n then m (src + (a - dst)) else m a

/-- The 32-bit word at an address. -/
def read32 (m : Memory) (addr : Nat) : Nat :=
  (m addr).toNat + 2 ^ 8 * (m (addr + 1)).toNat + 2 ^ 16 * (m (addr + 2)).toNat +
    2 ^ 24 * (m (addr + 3)).toNat

/-- The bytes of a 32-bit word. -/
def bytes32 (value : Nat) : List UInt8 :=
  [UInt8.ofNat value, UInt8.ofNat (value / 2 ^ 8), UInt8.ofNat (value / 2 ^ 16),
    UInt8.ofNat (value / 2 ^ 24)]

/-- The memory with a 32-bit word at an address. -/
def write32 (m : Memory) (addr value : Nat) : Memory := m.write addr (bytes32 value)

variable {m m' : Memory} {a addr b n k dst src : Nat} {bytes : List UInt8}

@[simp] theorem length_read (m : Memory) (addr n : Nat) : (m.read addr n).length = n := by
  simp [read]

@[simp] theorem length_bytes32 (value : Nat) : (bytes32 value).length = 4 := rfl

/-! ## Reads of equal bytes -/

theorem read_congr (hsame : ∀ i, i < n → m (a + i) = m' (b + i)) : m.read a n = m'.read b n :=
  List.map_congr_left fun i hi => hsame i (List.mem_range.mp hi)

theorem read32_congr (hsame : ∀ i, i < 4 → m (a + i) = m' (b + i)) : m.read32 a = m'.read32 b := by
  have hzero := hsame 0 (by decide)
  rw [Nat.add_zero, Nat.add_zero] at hzero
  unfold read32
  rw [hzero, hsame 1 (by decide), hsame 2 (by decide), hsame 3 (by decide)]

theorem read_add (m : Memory) (a n k : Nat) : m.read a (n + k) = m.read a n ++ m.read (a + n) k := by
  simp [read, List.range_add, Nat.add_assoc]

/-! ## Blocks -/

theorem write_outside (hout : a < addr ∨ addr + bytes.length ≤ a) :
    m.write addr bytes a = m a := by
  unfold write
  rw [if_neg (by omega)]

theorem move_outside (hout : a < dst ∨ dst + n ≤ a) : m.move dst src n a = m a := by
  unfold move
  rw [if_neg (by omega)]

theorem read_write_self (m : Memory) (addr : Nat) (bytes : List UInt8) :
    (m.write addr bytes).read addr bytes.length = bytes := by
  refine List.ext_getElem (by simp) fun i hi hi' => ?_
  simp only [read, List.getElem_map, List.getElem_range, write]
  rw [if_pos (by omega), Nat.add_sub_cancel_left, List.getD_eq_getElem?_getD,
    List.getElem?_eq_getElem hi', Option.getD_some]

theorem read_write_disjoint (hout : a + n ≤ addr ∨ addr + bytes.length ≤ a) :
    (m.write addr bytes).read a n = m.read a n :=
  read_congr fun _ _ => write_outside (by omega)

theorem read_move_disjoint (hout : a + k ≤ dst ∨ dst + n ≤ a) :
    (m.move dst src n).read a k = m.read a k :=
  read_congr fun _ _ => move_outside (by omega)

/-- A read inside the moved block. -/
theorem read_move (hlow : dst ≤ a) (hhigh : a + k ≤ dst + n) :
    (m.move dst src n).read a k = m.read (src + (a - dst)) k := by
  refine read_congr fun i hi => ?_
  unfold move
  rw [if_pos (by omega)]
  congr 1
  omega

theorem read32_write_disjoint (hout : a + 4 ≤ addr ∨ addr + bytes.length ≤ a) :
    (m.write addr bytes).read32 a = m.read32 a :=
  read32_congr fun _ _ => write_outside (by omega)

theorem read32_move_disjoint (hout : a + 4 ≤ dst ∨ dst + n ≤ a) :
    (m.move dst src n).read32 a = m.read32 a :=
  read32_congr fun _ _ => move_outside (by omega)

/-! ## Words -/

theorem read_write32_disjoint {value : Nat} (hout : a + n ≤ addr ∨ addr + 4 ≤ a) :
    (m.write32 addr value).read a n = m.read a n := by
  unfold write32
  exact read_write_disjoint (by simpa using hout)

theorem read32_write32_disjoint {value : Nat} (hout : a + 4 ≤ addr ∨ addr + 4 ≤ a) :
    (m.write32 addr value).read32 a = m.read32 a := by
  unfold write32
  exact read32_write_disjoint (by simpa using hout)

theorem read32_write32 (m : Memory) (addr value : Nat) :
    (m.write32 addr value).read32 addr = value % 2 ^ 32 := by
  have hbyte : ∀ i, i < 4 → m.write32 addr value (addr + i) = (bytes32 value).getD i 0 := by
    intro i hi
    unfold write32 write
    rw [if_pos (by simp; omega), Nat.add_sub_cancel_left]
  have hzero := hbyte 0 (by decide)
  rw [Nat.add_zero] at hzero
  unfold read32
  rw [hzero, hbyte 1 (by decide), hbyte 2 (by decide), hbyte 3 (by decide)]
  simp only [bytes32, List.getD_cons_zero, List.getD_cons_succ, UInt8.toNat_ofNat']
  omega

end Memory
