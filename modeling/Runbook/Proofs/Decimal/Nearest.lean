import Mathlib

/-!
# Rounding integers to 53 binary digits

A double has 53 binary digits. `rounded` is the integer that the double nearest to an integer
stands for: of the multiples of a power of two the nearest one, at a half the one with an even
factor. Rounding keeps the order of integers (`rounded_mono`) and the integers up to `2 ^ 53`
(`rounded_eq_self`).
-/

namespace Runbook.Decimal

/-! ## Rounding -/

/-- The quotient rounded to the nearest natural number, at a half to the even one. -/
def roundDiv (n d : Nat) : Nat :=
  if 2 * (n % d) < d then n / d
  else if 2 * (n % d) = d then n / d + n / d % 2
  else n / d + 1

/-- The natural number that the double nearest to a natural number stands for. -/
def roundedNat (n : Nat) : Nat := roundDiv n (2 ^ (n.log2 - 52)) * 2 ^ (n.log2 - 52)

/-- The integer that the double nearest to an integer stands for. -/
def rounded : Int → Int
  | .ofNat n => roundedNat n
  | .negSucc n => -roundedNat (n + 1)

section
variable {n m d k : Nat} {x y : Int}

theorem le_roundDiv (n d : Nat) : n / d ≤ roundDiv n d := by
  unfold roundDiv
  split_ifs <;> omega

theorem roundDiv_le (n d : Nat) : roundDiv n d ≤ n / d + 1 := by
  unfold roundDiv
  split_ifs <;> omega

theorem roundDiv_mul_self (hd : 0 < d) (n : Nat) : roundDiv (n * d) d = n := by
  rw [roundDiv, Nat.mul_mod_left, if_pos (by omega), Nat.mul_div_cancel _ hd]

/-- A common factor of both makes no difference. -/
theorem roundDiv_mul_mul (hk : 0 < k) : roundDiv (n * k) (d * k) = roundDiv n d := by
  unfold roundDiv
  rw [Nat.mul_mod_mul_right, Nat.mul_div_mul_right _ _ hk, ← Nat.mul_assoc]
  simp only [Nat.mul_lt_mul_right hk, Nat.mul_left_inj hk.ne']

theorem roundDiv_mono (h : m ≤ n) : roundDiv m d ≤ roundDiv n d := by
  rcases (Nat.div_le_div_right (c := d) h).lt_or_eq with hlt | heq
  · exact (roundDiv_le m d).trans (hlt.trans_le (le_roundDiv n d))
  · have hmod : m % d ≤ n % d := by
      have hm := Nat.div_add_mod m d
      have hn := Nat.div_add_mod n d
      rw [heq] at hm
      omega
    unfold roundDiv
    rw [heq]
    split_ifs <;> omega

theorem roundedNat_of_log2_le (h : n.log2 ≤ 52) : roundedNat n = n := by
  have hzero : n.log2 - 52 = 0 := by omega
  have hround : roundDiv n 1 = n := by simpa using roundDiv_mul_self (d := 1) one_pos n
  rw [roundedNat, hzero, pow_zero, hround, Nat.mul_one]

/-! A rounded number lies between the powers of two around the number. -/

theorem two_pow_le_roundedNat (hn : n ≠ 0) : 2 ^ n.log2 ≤ roundedNat n := by
  have hself : 2 ^ n.log2 ≤ n := Nat.log2_self_le hn
  by_cases hk : n.log2 ≤ 52
  · rwa [roundedNat_of_log2_le hk]
  · have hsplit : 2 ^ n.log2 = 2 ^ 52 * 2 ^ (n.log2 - 52) := by
      rw [← Nat.pow_add]
      congr 1
      omega
    rw [roundedNat, hsplit]
    refine Nat.mul_le_mul_right _ (le_trans ?_ (le_roundDiv _ _))
    rwa [Nat.le_div_iff_mul_le (Nat.two_pow_pos _), ← hsplit]

theorem roundedNat_le_two_pow (n : Nat) : roundedNat n ≤ 2 ^ (n.log2 + 1) := by
  have hself : n < 2 ^ (n.log2 + 1) := Nat.lt_log2_self
  by_cases hk : n.log2 ≤ 52
  · rw [roundedNat_of_log2_le hk]
    exact hself.le
  · have hsplit : 2 ^ (n.log2 + 1) = 2 ^ 53 * 2 ^ (n.log2 - 52) := by
      rw [← Nat.pow_add]
      congr 1
      omega
    rw [roundedNat, hsplit]
    refine Nat.mul_le_mul_right _ ((roundDiv_le _ _).trans ?_)
    rwa [Nat.succ_le_iff, Nat.div_lt_iff_lt_mul (Nat.two_pow_pos _), ← hsplit]

theorem roundedNat_mono (h : m ≤ n) : roundedNat m ≤ roundedNat n := by
  rcases Nat.eq_zero_or_pos m with rfl | hm
  · simp [roundedNat, roundDiv]
  · have hlog : m.log2 ≤ n.log2 :=
      (Nat.le_log2 (by omega)).2 ((Nat.log2_self_le hm.ne').trans h)
    -- Numbers with the same leading power of two are rounded to multiples of the same number.
    rcases hlog.lt_or_eq with hlt | heq
    · calc roundedNat m ≤ 2 ^ (m.log2 + 1) := roundedNat_le_two_pow m
        _ ≤ 2 ^ n.log2 := Nat.pow_le_pow_right two_pos hlt
        _ ≤ roundedNat n := two_pow_le_roundedNat (by omega)
    · rw [roundedNat, roundedNat, heq]
      exact Nat.mul_le_mul_right _ (roundDiv_mono h)

theorem roundedNat_eq_self (h : n ≤ 2 ^ 53) : roundedNat n = n := by
  rcases h.lt_or_eq with hlt | rfl
  · refine roundedNat_of_log2_le ?_
    by_cases hn : n = 0
    · simp [hn]
    · have := (Nat.log2_lt hn).2 hlt
      omega
  · decide

theorem rounded_natCast (n : Nat) : rounded n = roundedNat n := rfl

theorem rounded_neg_natCast (n : Nat) : rounded (-n) = -roundedNat n := by
  cases n with
  | zero => rfl
  | succ n => rfl

/-- **Rounding** keeps the order. -/
theorem rounded_mono (h : x ≤ y) : rounded x ≤ rounded y := by
  obtain ⟨n, rfl | rfl⟩ := Int.eq_nat_or_neg x <;> obtain ⟨m, rfl | rfl⟩ := Int.eq_nat_or_neg y
  all_goals simp only [rounded_natCast, rounded_neg_natCast]
  · have hle := roundedNat_mono (m := n) (n := m) (by omega)
    omega
  · obtain rfl : n = 0 := by omega
    obtain rfl : m = 0 := by omega
    rfl
  · omega
  · have hle := roundedNat_mono (m := m) (n := n) (by omega)
    omega

/-- Integers of up to 53 binary digits are kept. -/
theorem rounded_eq_self (h : x.natAbs ≤ 2 ^ 53) : rounded x = x := by
  obtain ⟨n, rfl | rfl⟩ := Int.eq_nat_or_neg x
  · rw [rounded_natCast, roundedNat_eq_self (by simpa using h)]
  · rw [rounded_neg_natCast, roundedNat_eq_self (by simpa using h)]

end
end Runbook.Decimal
