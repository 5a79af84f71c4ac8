import CrateAudit.Proofs.Number.Amount

/-!
# Exact arithmetic

Whole numbers below `2 ^ 53` are double-precision numbers (`ofInt_natCast`). As long as the results are such numbers,
quotients without a rest and products of them are not rounded (`divNat_whole`, `mul_whole`).
-/

namespace CrateAudit.Binary64

variable {n m den units : ℕ}

/-- A quotient without a rest is not rounded, if it is a multiple of its spacing. -/
theorem roundUnits_mul_left (hden : 0 < den) (h : spacing units ∣ units) : roundUnits (den * units) den = units := by
  have hmod : den * units % (den * spacing units) = 0 := Nat.mod_eq_zero_of_dvd (Nat.mul_dvd_mul_left den h)
  have hdiv : den * units / (den * spacing units) = units / spacing units := Nat.mul_div_mul_left _ _ hden
  rw [roundUnits_eq, Nat.mul_div_cancel_left units hden, roundHalfEven]
  simp only [hmod, hdiv, Nat.mul_zero, Nat.mul_pos hden (spacing_pos units), if_true]
  exact Nat.div_mul_cancel h

/-- A whole number. -/
def whole (n : ℕ) : Binary64 := .finite false (n * one)

theorem one_pos : 0 < one := by
  unfold one
  generalize 1074 = e
  exact Nat.two_pow_pos e

theorem whole_lt_limit (hn : n < 2 ^ 53) : n * one < limit := by
  have hpow : ∀ e p, e + 53 ≤ p → n * Nat.pow 2 e < Nat.pow 2 p := by
    intro e p hp
    calc n * 2 ^ e < 2 ^ 53 * 2 ^ e := Nat.mul_lt_mul_of_pos_right hn (Nat.two_pow_pos e)
      _ = 2 ^ (53 + e) := (Nat.pow_add ..).symm
      _ ≤ 2 ^ p := Nat.pow_le_pow_right (by omega) (by omega)
  unfold one limit
  exact hpow 1074 2098 (by omega)

theorem spacing_dvd_whole (hn : n < 2 ^ 53) : spacing (n * one) ∣ n * one := by
  unfold one
  generalize 1074 = e
  exact spacing_dvd hn.le e

theorem ofUnits_mul_whole (hden : 0 < den) (hn : n < 2 ^ 53) : ofUnits false (den * (n * one)) den = whole n := by
  rw [ofUnits, roundUnits_mul_left hden (spacing_dvd_whole hn)]
  exact if_pos (whole_lt_limit hn)

/-- Whole numbers below `2 ^ 53` are not rounded. -/
theorem ofInt_natCast (hn : n < 2 ^ 53) : ofInt n = whole n := by
  have hsign : decide ((n : ℤ) < 0) = false := by simp
  rw [ofInt, hsign, ofRatio, Int.natAbs_natCast, ← Nat.one_mul (n * one)]
  exact ofUnits_mul_whole Nat.one_pos hn

theorem divNat_whole (hden : 0 < den) (hn : n < 2 ^ 53) : (whole (n * den)).divNat den = whole n := by
  rw [whole, divNat, Nat.mul_right_comm, Nat.mul_comm]
  exact ofUnits_mul_whole hden hn

theorem mul_whole (h : n * m < 2 ^ 53) : (whole n).mul (whole m) = whole (n * m) := by
  have hunits : n * one * (m * one) = one * (n * m * one) := by
    generalize one = u
    ring
  rw [whole, whole, mul, hunits]
  exact ofUnits_mul_whole one_pos h

theorem toNat_whole (n : ℕ) : (whole n).toNat = n := Nat.mul_div_cancel n one_pos

end CrateAudit.Binary64
