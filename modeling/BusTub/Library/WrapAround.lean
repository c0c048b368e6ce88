import Mathlib.Algebra.Order.Ring.Abs
import Mathlib.Algebra.Order.Ring.Int
import Mathlib.Tactic.Linarith
import Mathlib.Tactic.Ring

/-! # Arithmetic that wraps around

A number in two's complement of a given width. A sum or a difference that does not
fit shows in its sign, a product that does not fit in its quotient by a factor.
-/

namespace WrapAround

/-- What a number of bits keep of an integer. -/
def wrap (width : Nat) (n : Int) : Int := n.bmod (2 ^ width)

/-- The integer has a place in the given number of bits. -/
def Fits (width : Nat) (n : Int) : Prop := -2 ^ (width - 1) ≤ n ∧ n < 2 ^ (width - 1)

/-- The integer has a place there, and it is not the least one. -/
def Balanced (width : Nat) (n : Int) : Prop := -2 ^ (width - 1) < n ∧ n < 2 ^ (width - 1)

instance (width : Nat) (n : Int) : Decidable (Fits width n) := inferInstanceAs (Decidable (_ ∧ _))

instance (width : Nat) (n : Int) : Decidable (Balanced width n) :=
  inferInstanceAs (Decidable (_ ∧ _))

variable {width narrow : Nat} {n x y : Int}

theorem two_pow_eq (hwidth : 0 < width) : (2 : Int) ^ width = 2 * 2 ^ (width - 1) := by
  obtain ⟨k, rfl⟩ := Nat.exists_eq_succ_of_ne_zero hwidth.ne'
  rw [Nat.succ_sub_one, pow_succ]
  ring

theorem half_pos (width : Nat) : (0 : Int) < 2 ^ (width - 1) := Int.pow_pos (by decide)

theorem Balanced.fits (h : Balanced width n) : Fits width n := ⟨h.1.le, h.2⟩

theorem balanced_iff : Balanced width n ↔ Fits width n ∧ n ≠ -2 ^ (width - 1) := by
  unfold Balanced Fits
  constructor
  · intro h
    exact ⟨⟨h.1.le, h.2⟩, h.1.ne'⟩
  · intro h
    exact ⟨lt_of_le_of_ne h.1.1 h.2.symm, h.1.2⟩

theorem Fits.mono (h : Fits narrow n) (hle : narrow ≤ width) : Fits width n := by
  have hpow : (2 : Int) ^ (narrow - 1) ≤ 2 ^ (width - 1) :=
    pow_le_pow_right₀ (by decide) (Nat.sub_le_sub_right hle 1)
  exact ⟨(neg_le_neg hpow).trans h.1, h.2.trans_le hpow⟩

theorem Balanced.mono (h : Balanced narrow n) (hle : narrow ≤ width) : Balanced width n := by
  have hpow : (2 : Int) ^ (narrow - 1) ≤ 2 ^ (width - 1) :=
    pow_le_pow_right₀ (by decide) (Nat.sub_le_sub_right hle 1)
  exact ⟨(neg_le_neg hpow).trans_lt h.1, h.2.trans_le hpow⟩

theorem fits_wrap (hwidth : 0 < width) (n : Int) : Fits width (wrap width n) := by
  have htwo := two_pow_eq hwidth
  have hpos : 0 < 2 ^ width := Nat.two_pow_pos width
  have hlow := Int.le_bmod (x := n) hpos
  have hhigh := Int.bmod_lt (x := n) hpos
  unfold Fits wrap
  push_cast at hlow hhigh
  constructor <;> omega

/-- An integer that fits is kept. -/
theorem wrap_of_fits (hwidth : 0 < width) (h : Fits width n) : wrap width n = n := by
  have htwo := two_pow_eq hwidth
  obtain ⟨hlow, hhigh⟩ := h
  apply Int.bmod_eq_of_le_mul_two
  · push_cast
    omega
  · push_cast
    omega

theorem wrap_eq_self_iff (hwidth : 0 < width) : wrap width n = n ↔ Fits width n := by
  constructor
  · intro h
    rw [← h]
    exact fits_wrap hwidth n
  · exact wrap_of_fits hwidth

/-- What is kept differs from the integer by a multiple of the modulus. -/
theorem exists_wrap_eq (width : Nat) (n : Int) : ∃ k : Int, wrap width n = n + 2 ^ width * k := by
  obtain ⟨k, hk⟩ := Int.dvd_bmod_sub_self (x := n) (m := 2 ^ width)
  refine ⟨k, ?_⟩
  push_cast at hk
  unfold wrap
  linarith

/-- What is kept is the one integer that fits and is off by a multiple of the modulus. -/
theorem wrap_eq_iff (hwidth : 0 < width) :
    wrap width n = x ↔ Fits width x ∧ (2 : Int) ^ width ∣ n - x := by
  have htwo := two_pow_eq hwidth
  unfold wrap Fits
  rw [Int.bmod_eq_iff (Nat.two_pow_pos width), ← dvd_neg (b := x - n), neg_sub]
  push_cast
  constructor
  · rintro ⟨hlow, hhigh, hdvd⟩
    exact ⟨⟨by omega, by omega⟩, hdvd⟩
  · rintro ⟨⟨hlow, hhigh⟩, hdvd⟩
    exact ⟨by omega, by omega, hdvd⟩

/-- Two wraps are one by the narrower width. -/
theorem wrap_wrap (hle : narrow ≤ width) (n : Int) :
    wrap narrow (wrap width n) = wrap narrow n :=
  Int.bmod_bmod_of_dvd (Nat.pow_dvd_pow 2 hle)

/-- A wrapped integer is off by the modulus at least, if it is off. -/
theorem two_pow_le_of_not_fits (hwidth : 0 < width) (h : ¬ Fits width n) :
    2 ^ width ≤ |n - wrap width n| := by
  obtain ⟨k, hk⟩ := exists_wrap_eq width n
  have hne : k ≠ 0 := by
    rintro rfl
    rw [mul_zero, add_zero, wrap_eq_self_iff hwidth] at hk
    exact h hk
  have hdiff : n - wrap width n = 2 ^ width * -k := by
    rw [hk]
    ring
  have hpow : (0 : Int) < 2 ^ width := Int.pow_pos (by decide)
  rw [hdiff, abs_mul, abs_neg, abs_of_pos hpow]
  exact le_mul_of_one_le_right hpow.le (Int.one_le_abs hne)

/-! ## Sums and differences -/

/-- The sum of two integers that does not fit has the other sign. -/
theorem sum_overflows_iff (hwidth : 0 < width) (hx : Balanced width x) (hy : Balanced width y) :
    (0 < x ∧ 0 < y ∧ wrap width (x + y) < 0) ∨ (x < 0 ∧ y < 0 ∧ 0 < wrap width (x + y)) ↔
      ¬ Fits width (x + y) := by
  have htwo := two_pow_eq hwidth
  have hhalf := half_pos width
  obtain ⟨hxlow, hxhigh⟩ := hx
  obtain ⟨hylow, hyhigh⟩ := hy
  by_cases hfits : Fits width (x + y)
  · rw [wrap_of_fits hwidth hfits]
    constructor
    · rintro (⟨hx, hy, hneg⟩ | ⟨hx, hy, hpos⟩) <;> omega
    · exact fun h => absurd hfits h
  · refine iff_of_true ?_ hfits
    obtain ⟨hlow, hhigh⟩ := fits_wrap hwidth (x + y)
    obtain ⟨k, hk⟩ := exists_wrap_eq width (x + y)
    -- The sum leaves the range by less than the modulus.
    by_cases hupper : 2 ^ (width - 1) ≤ x + y
    · have hk1 : k = -1 := by
        apply le_antisymm
        · by_contra hcon
          have : 0 ≤ 2 ^ width * k := mul_nonneg (by omega) (by omega)
          omega
        · by_contra hcon
          have : 2 ^ width * k ≤ 2 ^ width * (-2) :=
            mul_le_mul_of_nonneg_left (by omega) (by omega)
          omega
      subst hk1
      left
      omega
    · have hlower : x + y < -2 ^ (width - 1) := by
        by_contra hcon
        exact hfits ⟨by omega, by omega⟩
      have hk1 : k = 1 := by
        apply le_antisymm
        · by_contra hcon
          have : 2 ^ width * 2 ≤ 2 ^ width * k :=
            mul_le_mul_of_nonneg_left (by omega) (by omega)
          omega
        · by_contra hcon
          have : 2 ^ width * k ≤ 0 := mul_nonpos_of_nonneg_of_nonpos (by omega) (by omega)
          omega
      subst hk1
      right
      omega

/-- The difference of two integers that does not fit has the sign of the second one. -/
theorem difference_overflows_iff (hwidth : 0 < width) (hx : Balanced width x)
    (hy : Balanced width y) :
    (0 < x ∧ y < 0 ∧ wrap width (x - y) < 0) ∨ (x < 0 ∧ 0 < y ∧ 0 < wrap width (x - y)) ↔
      ¬ Fits width (x - y) := by
  have hneg : Balanced width (-y) := ⟨neg_lt_neg hy.2, neg_lt.mp hy.1⟩
  have h := sum_overflows_iff hwidth hx hneg
  rw [← sub_eq_add_neg, neg_pos, neg_lt_zero] at h
  exact h

/-! ## Products -/

/-- The product of two integers that does not fit has another quotient. -/
theorem product_overflows_iff (hwidth : 0 < width) (hy : Balanced width y) :
    (y ≠ 0 ∧ (wrap width (x * y)).tdiv y ≠ x) ↔ ¬ Fits width (x * y) := by
  by_cases hzero : y = 0
  · subst hzero
    have hhalf := half_pos width
    have hfits : Fits width (x * 0) := by
      rw [mul_zero]
      exact ⟨by omega, hhalf⟩
    exact iff_of_false (fun h => h.1 rfl) (fun h => h hfits)
  · rw [and_iff_right hzero, not_iff_not]
    constructor
    · intro hquot
      by_contra hfits
      -- a wrapped product is off by the modulus at least, a remainder by less than the divisor
      have hoff := two_pow_le_of_not_fits hwidth hfits
      have hrem := Int.tmod_add_mul_tdiv (wrap width (x * y)) y
      rw [hquot] at hrem
      have hdiff : x * y - wrap width (x * y) = -(wrap width (x * y)).tmod y := by
        linarith [mul_comm x y]
      have hlt : |(wrap width (x * y)).tmod y| < |y| := by
        rw [Int.abs_eq_natAbs, Int.abs_eq_natAbs, Int.natAbs_tmod]
        exact_mod_cast Nat.mod_lt _ (Int.natAbs_pos.mpr hzero)
      rw [hdiff, abs_neg] at hoff
      have hbound : |y| < 2 ^ (width - 1) := abs_lt.mpr hy
      have htwo := two_pow_eq hwidth
      have hhalf := half_pos width
      omega
    · intro hfits
      rw [wrap_of_fits hwidth hfits]
      exact Int.mul_tdiv_cancel x hzero

end WrapAround
