import Mathlib

/-!
# Integers as `float64`

An integer is converted to the nearest number with 53 significant bits, and of two that are
equally near to the one whose last bit is 0.  The conversion keeps the order, but from `2 ^ 53`
on it no longer tells all integers apart.
-/

namespace Nat

/-! ## Rounded division -/

/-- `m / n` rounded to the nearest integer, ties to even. -/
def roundDiv (m n : ℕ) : ℕ :=
  if 2 * (m % n) < n then m / n
  else if n < 2 * (m % n) then m / n + 1
  else m / n + m / n % 2

section RoundDiv

variable {m m' n : ℕ}

theorem le_roundDiv (m n : ℕ) : m / n ≤ roundDiv m n := by
  unfold roundDiv
  split_ifs <;> omega

theorem roundDiv_le (m n : ℕ) : roundDiv m n ≤ m / n + 1 := by
  unfold roundDiv
  split_ifs <;> omega

theorem roundDiv_mul (k : ℕ) (h : 0 < n) : roundDiv (k * n) n = k := by
  rw [roundDiv, Nat.mul_mod_left, if_pos (by omega), Nat.mul_div_cancel k h]

theorem roundDiv_mono (h : m ≤ m') : roundDiv m n ≤ roundDiv m' n := by
  rcases (Nat.div_le_div_right h : m / n ≤ m' / n).lt_or_eq with hlt | heq
  · exact (roundDiv_le m n).trans ((Nat.succ_le_of_lt hlt).trans (le_roundDiv m' n))
  · -- one quotient, so the remainders are in the order of the numbers
    have hmod : m % n ≤ m' % n := by
      have hm := Nat.div_add_mod m n
      have hm' := Nat.div_add_mod m' n
      rw [heq] at hm
      omega
    unfold roundDiv
    rw [heq]
    split_ifs <;> omega

end RoundDiv

/-! ## 53 significant bits -/

/-- What the last of 53 significant bits of a number stands for. -/
def ulp (m : ℕ) : ℕ := 2 ^ (m.log2 - 52)

/-- The `float64` nearest to a number. -/
def toFloat64 (m : ℕ) : ℕ := roundDiv m m.ulp * m.ulp

section ToFloat64

variable {m m' : ℕ}

theorem ulp_pos (m : ℕ) : 0 < m.ulp := Nat.two_pow_pos _

theorem ulp_dvd {k : ℕ} (h : m.log2 ≤ k) : m.ulp ∣ 2 ^ k :=
  Nat.pow_dvd_pow 2 ((Nat.sub_le _ _).trans h)

/-- A number of the spacing is kept, whichever side of it one comes from. -/
theorem roundDiv_ulp {x : ℕ} (h : m.ulp ∣ x) : roundDiv x m.ulp * m.ulp = x := by
  obtain ⟨k, rfl⟩ := h
  rw [Nat.mul_comm m.ulp k, roundDiv_mul k m.ulp_pos]

theorem toFloat64_le_two_pow (m : ℕ) : m.toFloat64 ≤ 2 ^ (m.log2 + 1) := by
  calc roundDiv m m.ulp * m.ulp
      ≤ roundDiv (2 ^ (m.log2 + 1)) m.ulp * m.ulp :=
        Nat.mul_le_mul_right _ (roundDiv_mono Nat.lt_log2_self.le)
    _ = 2 ^ (m.log2 + 1) := roundDiv_ulp (ulp_dvd (Nat.le_succ _))

theorem two_pow_le_toFloat64 (h : m ≠ 0) : 2 ^ m.log2 ≤ m.toFloat64 := by
  calc 2 ^ m.log2
      = roundDiv (2 ^ m.log2) m.ulp * m.ulp := (roundDiv_ulp (ulp_dvd le_rfl)).symm
    _ ≤ roundDiv m m.ulp * m.ulp := Nat.mul_le_mul_right _ (roundDiv_mono (Nat.log2_self_le h))

/-- Numbers up to `2 ^ 53` are kept. -/
theorem toFloat64_of_le (h : m ≤ 2 ^ 53) : m.toFloat64 = m := by
  rcases h.lt_or_eq with hlt | rfl
  · have hulp : m.ulp = 1 := by
      rcases Nat.eq_zero_or_pos m with rfl | hpos
      · rfl
      · have hlog : m.log2 < 53 := (Nat.log2_lt hpos.ne').mpr hlt
        rw [ulp, show m.log2 - 52 = 0 by omega, pow_zero]
    rw [toFloat64, hulp, Nat.mul_one]
    simpa using roundDiv_mul m Nat.one_pos
  · exact roundDiv_ulp (ulp_dvd (by rw [Nat.log2_two_pow]))

theorem toFloat64_mono (h : m ≤ m') : m.toFloat64 ≤ m'.toFloat64 := by
  rcases Nat.eq_zero_or_pos m with rfl | hpos
  · exact Nat.zero_le _
  · have hne : m' ≠ 0 := (hpos.trans_le h).ne'
    have hlog : m.log2 ≤ m'.log2 := (Nat.le_log2 hne).mpr ((Nat.log2_self_le hpos.ne').trans h)
    rcases hlog.lt_or_eq with hlt | heq
    · -- a power of two lies between them
      calc m.toFloat64
          ≤ 2 ^ (m.log2 + 1) := toFloat64_le_two_pow m
        _ ≤ 2 ^ m'.log2 := Nat.pow_le_pow_right (by norm_num) hlt
        _ ≤ m'.toFloat64 := two_pow_le_toFloat64 hne
    · unfold toFloat64 ulp
      rw [heq]
      exact Nat.mul_le_mul_right _ (roundDiv_mono h)

end ToFloat64

end Nat

/-! ## Signed integers -/

/-- The `float64` nearest to an integer. -/
def Int.toFloat64 : ℤ → ℤ
  | .ofNat m => m.toFloat64
  | .negSucc m => -((m + 1).toFloat64 : ℤ)

namespace Int

variable {m n : ℤ}

theorem toFloat64_natCast (m : ℕ) : (m : ℤ).toFloat64 = m.toFloat64 := rfl

theorem toFloat64_neg_natCast (m : ℕ) : (-(m : ℤ)).toFloat64 = -(m.toFloat64 : ℤ) := by
  cases m with
  | zero => rfl
  | succ m => rfl

/-- Integers up to `2 ^ 53` in absolute value are kept. -/
theorem toFloat64_of_abs_le (h : |n| ≤ 2 ^ 53) : n.toFloat64 = n := by
  obtain ⟨m, rfl | rfl⟩ := n.eq_nat_or_neg
  · rw [toFloat64_natCast, Nat.toFloat64_of_le]
    rw [Nat.abs_cast] at h
    exact_mod_cast h
  · rw [toFloat64_neg_natCast, Nat.toFloat64_of_le]
    rw [abs_neg, Nat.abs_cast] at h
    exact_mod_cast h

theorem toFloat64_mono (h : m ≤ n) : m.toFloat64 ≤ n.toFloat64 := by
  obtain ⟨a, rfl | rfl⟩ := m.eq_nat_or_neg
  · obtain ⟨b, rfl⟩ := Int.eq_ofNat_of_zero_le ((Int.natCast_nonneg a).trans h)
    exact Int.ofNat_le.mpr (Nat.toFloat64_mono (Int.ofNat_le.mp h))
  · obtain ⟨b, rfl | rfl⟩ := n.eq_nat_or_neg
    · rw [toFloat64_neg_natCast, toFloat64_natCast]
      omega
    · rw [toFloat64_neg_natCast, toFloat64_neg_natCast]
      exact Int.neg_le_neg (Int.ofNat_le.mpr (Nat.toFloat64_mono (by omega)))

end Int
