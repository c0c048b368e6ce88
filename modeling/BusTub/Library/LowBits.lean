import Mathlib.Data.Nat.Bitwise
import Mathlib.Data.Finset.Card
import Mathlib.Data.Finset.Range
import Mathlib.Tactic.Ring
import Mathlib.Algebra.Order.Ring.Nat

/-! # Numbers that agree on their low bits

The low `l` bits of a number are its remainder by `2 ^ l`. Two numbers that agree
on `l` bits agree on one bit more, or one of them does with the other's image
under a flip of that bit.
-/

namespace LowBits

/-- The numbers have the same low `l` bits. -/
def Agree (l i j : Nat) : Prop := i % 2 ^ l = j % 2 ^ l

instance (l i j : Nat) : Decidable (Agree l i j) := inferInstanceAs (Decidable (_ = _))

/-- The low `l + 1` bits of the number, with the highest of them flipped. -/
def flip (l i : Nat) : Nat := (i + 2 ^ l) % 2 ^ (l + 1)

variable {l m i j k : Nat}

theorem Agree.refl (l i : Nat) : Agree l i i := rfl

theorem Agree.symm (h : Agree l i j) : Agree l j i := Eq.symm h

theorem Agree.trans (h : Agree l i j) (h' : Agree l j k) : Agree l i k := Eq.trans h h'

/-- Fewer bits are easier to agree on. -/
theorem Agree.mono (h : Agree m i j) (hle : l ≤ m) : Agree l i j := by
  have hdvd : 2 ^ l ∣ 2 ^ m := pow_dvd_pow 2 hle
  unfold Agree at h ⊢
  rw [← Nat.mod_mod_of_dvd i hdvd, h, Nat.mod_mod_of_dvd j hdvd]

theorem agree_mod (hle : l ≤ m) (i : Nat) : Agree l (i % 2 ^ m) i :=
  Nat.mod_mod_of_dvd i (pow_dvd_pow 2 hle)

theorem eq_of_agree (h : Agree l i j) (hi : i < 2 ^ l) (hj : j < 2 ^ l) : i = j := by
  unfold Agree at h
  rwa [Nat.mod_eq_of_lt hi, Nat.mod_eq_of_lt hj] at h

theorem flip_lt (l i : Nat) : flip l i < 2 ^ (l + 1) := Nat.mod_lt _ (Nat.two_pow_pos _)

theorem flip_congr (h : Agree (l + 1) i j) : flip l i = flip l j := by
  unfold Agree at h
  unfold flip
  rw [Nat.add_mod, h, ← Nat.add_mod]

theorem flip_of_lt (hi : i < 2 ^ l) : flip l i = i + 2 ^ l := by
  unfold flip
  rw [pow_succ]
  exact Nat.mod_eq_of_lt (by omega)

theorem flip_add (hi : i < 2 ^ l) : flip l (i + 2 ^ l) = i := by
  have hpow : i + 2 ^ l + 2 ^ l = i + 2 ^ (l + 1) := by ring
  unfold flip
  rw [hpow, Nat.add_mod_right]
  exact Nat.mod_eq_of_lt (lt_trans hi (Nat.pow_lt_pow_succ (by decide)))

/-- The low bits below the flipped one stay. -/
theorem agree_flip (l i : Nat) : Agree l (flip l i) i := by
  refine (agree_mod (Nat.le_succ l) (i + 2 ^ l)).trans ?_
  exact Nat.add_mod_right i (2 ^ l)

/-- The remainder by `2 ^ (l + 1)`, by the bit that it has more than the one by `2 ^ l`. -/
theorem mod_succ_cases (l i : Nat) :
    (i % 2 ^ (l + 1) = i % 2 ^ l ∧ flip l i = i % 2 ^ l + 2 ^ l) ∨
      (i % 2 ^ (l + 1) = i % 2 ^ l + 2 ^ l ∧ flip l i = i % 2 ^ l) := by
  have hpos := Nat.two_pow_pos l
  unfold flip
  rw [pow_succ, Nat.mod_mul, Nat.mod_mul, Nat.add_mod_right, Nat.add_div_right _ hpos]
  rcases Nat.mod_two_eq_zero_or_one (i / 2 ^ l) with hbit | hbit
  · left
    have hnext : (i / 2 ^ l).succ % 2 = 1 := by omega
    rw [hbit, hnext, Nat.mul_zero, Nat.mul_one]
    exact ⟨rfl, rfl⟩
  · right
    have hnext : (i / 2 ^ l).succ % 2 = 0 := by omega
    rw [hbit, hnext, Nat.mul_zero, Nat.mul_one]
    exact ⟨rfl, rfl⟩

theorem not_agree_flip (l i : Nat) : ¬ Agree (l + 1) (flip l i) i := by
  intro h
  have hpos := Nat.two_pow_pos l
  unfold Agree at h
  rw [Nat.mod_eq_of_lt (flip_lt l i)] at h
  rcases mod_succ_cases l i with ⟨hmod, hflip⟩ | ⟨hmod, hflip⟩ <;> omega

/-- Numbers that agree on the low bits agree on the next bit or on its flip. -/
theorem agree_iff_succ : Agree l i j ↔ Agree (l + 1) i j ∨ Agree (l + 1) i (flip l j) := by
  constructor
  · intro h
    unfold Agree at h ⊢
    rw [Nat.mod_eq_of_lt (flip_lt l j)]
    rcases mod_succ_cases l i with ⟨hi, -⟩ | ⟨hi, -⟩
    · rcases mod_succ_cases l j with ⟨hj, hflip⟩ | ⟨hj, hflip⟩
      · left; omega
      · right; omega
    · rcases mod_succ_cases l j with ⟨hj, hflip⟩ | ⟨hj, hflip⟩
      · right; omega
      · left; omega
  · rintro (h | h)
    · exact h.mono (Nat.le_succ l)
    · exact (h.mono (Nat.le_succ l)).trans (agree_flip l j)

/-- A number below `2 ^ (l + 1)` that agrees with `j` on `l` bits is one of two. -/
theorem eq_or_eq_flip (h : Agree l i j) (hi : i < 2 ^ (l + 1)) (hj : j < 2 ^ (l + 1)) :
    i = j ∨ i = flip l j := by
  rcases agree_iff_succ.mp h with h | h
  · exact Or.inl (eq_of_agree h hi hj)
  · exact Or.inr (eq_of_agree h hi (flip_lt l j))

/-- Of the numbers with `m` bits, `2 ^ (m - l)` agree with a given one on the low `l` bits. -/
theorem card_agree (hle : l ≤ m) (j : Nat) :
    ((Finset.range (2 ^ m)).filter (fun i => Agree l i j)).card = 2 ^ (m - l) := by
  have hpow : 2 ^ m = 2 ^ (m - l) * 2 ^ l := by rw [← pow_add]; congr 1; omega
  have hpos := Nat.two_pow_pos l
  have hlt : j % 2 ^ l < 2 ^ l := Nat.mod_lt _ hpos
  have himage : (Finset.range (2 ^ m)).filter (fun i => Agree l i j) =
      (Finset.range (2 ^ (m - l))).image (fun high => 2 ^ l * high + j % 2 ^ l) := by
    ext i
    simp only [Finset.mem_filter, Finset.mem_range, Finset.mem_image]
    unfold Agree
    constructor
    · rintro ⟨hi, hagree⟩
      refine ⟨i / 2 ^ l, ?_, ?_⟩
      · rw [hpow] at hi
        exact Nat.div_lt_of_lt_mul (by rwa [Nat.mul_comm])
      · rw [← hagree]
        exact Nat.div_add_mod i (2 ^ l)
    · rintro ⟨high, hhigh, rfl⟩
      constructor
      · calc 2 ^ l * high + j % 2 ^ l < 2 ^ l * high + 2 ^ l := by omega
          _ = (high + 1) * 2 ^ l := by ring
          _ ≤ 2 ^ (m - l) * 2 ^ l := Nat.mul_le_mul_right _ hhigh
          _ = 2 ^ m := hpow.symm
      · rw [Nat.mul_add_mod, Nat.mod_mod]
  rw [himage, Finset.card_image_of_injective, Finset.card_range]
  intro first second heq
  have hmul : 2 ^ l * first = 2 ^ l * second := Nat.add_right_cancel heq
  exact Nat.eq_of_mul_eq_mul_left hpos hmul

end LowBits
