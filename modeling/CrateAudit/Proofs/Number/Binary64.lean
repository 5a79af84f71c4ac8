import CrateAudit.Number.Binary64
import Mathlib.Algebra.Order.Ring.Nat
import Mathlib.Data.Nat.Log
import Mathlib.Tactic.Positivity
import Mathlib.Tactic.Ring

/-!
# The range of double-precision numbers

Rounding a quotient to 53 significant bits stays below a power of two exactly if the quotient lies below the
middle between that power and the number in front of it (`roundUnits_lt_iff`); the middle itself goes to the
power, whose significand is even. So the numbers that are rounded to finite ones are those below `overflow`
(`ofRatio_eq`).
-/

namespace CrateAudit.Binary64

variable {num den : ℕ}

/-! ### Rounding to a whole number -/

theorem roundHalfEven_le (num den : ℕ) : roundHalfEven num den ≤ num / den + 1 := by
  unfold roundHalfEven
  dsimp only
  split_ifs <;> omega

theorem le_roundHalfEven (num den : ℕ) : num / den ≤ roundHalfEven num den := by
  unfold roundHalfEven
  dsimp only
  split_ifs <;> omega

/-- A quotient is rounded below an even number exactly if it is less than that number by more than a half. -/
theorem roundHalfEven_lt_iff {bound : ℕ} (hden : 0 < den) (hpos : 0 < bound) (heven : bound % 2 = 0) :
    roundHalfEven num den < bound ↔ 2 * num < (2 * bound - 1) * den := by
  obtain ⟨k, rfl⟩ : ∃ k, bound = k + 1 := ⟨bound - 1, by omega⟩
  have hscale : (2 * (k + 1) - 1) * den = 2 * (den * k) + den := by
    rw [show 2 * (k + 1) - 1 = 2 * k + 1 by omega]
    ring
  have hsplit : den * (num / den) + num % den = num := Nat.div_add_mod num den
  have hrest : num % den < den := Nat.mod_lt num hden
  rw [hscale]
  unfold roundHalfEven
  dsimp only
  obtain hlt | heq | hgt := Nat.lt_trichotomy (num / den) k
  · have hle : den * (num / den) + den ≤ den * k := by
      rw [← Nat.mul_succ]
      exact Nat.mul_le_mul_left den hlt
    split_ifs <;> omega
  · rw [heq] at hsplit ⊢
    split_ifs <;> omega
  · have hle : den * k + den ≤ den * (num / den) := by
      rw [← Nat.mul_succ]
      exact Nat.mul_le_mul_left den hgt
    split_ifs <;> omega

/-! ### Rounding to 53 significant bits -/

theorem spacing_eq (units : ℕ) : spacing units = 2 ^ (units.log2 - 52) := rfl

theorem spacing_pos (units : ℕ) : 0 < spacing units := Nat.two_pow_pos _

/-- The spacing of numbers is at most as large as they are. -/
theorem spacing_le {units : ℕ} (h : units ≠ 0) : spacing units ≤ units :=
  (Nat.pow_le_pow_right (by omega) (Nat.sub_le _ _)).trans (Nat.log2_self_le h)

theorem roundUnits_eq (num den : ℕ) :
    roundUnits num den = roundHalfEven num (den * spacing (num / den)) * spacing (num / den) := rfl

/-- A number below a power of two by half of it stays below. -/
theorem roundUnits_lt_of_lt {p : ℕ} (h : num / den < 2 ^ p) : roundUnits num den < 2 ^ (p + 1) := by
  rw [roundUnits_eq]
  generalize hunits : num / den = units at h ⊢
  have hround := roundHalfEven_le num (den * spacing units)
  rw [← Nat.div_div_eq_div_mul, hunits] at hround
  calc roundHalfEven num (den * spacing units) * spacing units
      ≤ (units / spacing units + 1) * spacing units := Nat.mul_le_mul_right _ hround
    _ = units / spacing units * spacing units + spacing units := Nat.succ_mul _ _
    _ ≤ units + spacing units := Nat.add_le_add_right (Nat.div_mul_le_self _ _) _
    _ < 2 ^ (p + 1) := by
        rw [Nat.pow_succ]
        by_cases hzero : units = 0
        · subst hzero
          have hone : spacing 0 = 1 := rfl
          omega
        · have hspacing := spacing_le hzero
          omega

/-- A number from a power of two on stays there, if it has 53 bits. -/
theorem le_roundUnits_of_le {p : ℕ} (hp : 52 ≤ p) (h : 2 ^ p ≤ num / den) : 2 ^ p ≤ roundUnits num den := by
  rw [roundUnits_eq]
  generalize hunits : num / den = units at h ⊢
  have hne : units ≠ 0 := by
    rintro rfl
    exact absurd h (Nat.not_le.mpr (Nat.two_pow_pos p))
  have hlog : p ≤ units.log2 := (Nat.le_log2 hne).mpr h
  have hround := le_roundHalfEven num (den * spacing units)
  rw [← Nat.div_div_eq_div_mul, hunits] at hround
  have hpow : 2 ^ units.log2 = 2 ^ 52 * spacing units := by
    rw [spacing_eq, ← Nat.pow_add]
    congr 1
    omega
  have hbits : 2 ^ 52 ≤ units / spacing units := by
    rw [Nat.le_div_iff_mul_le (spacing_pos units), ← hpow]
    exact Nat.log2_self_le hne
  calc 2 ^ p ≤ 2 ^ units.log2 := Nat.pow_le_pow_right (by omega) hlog
    _ = 2 ^ 52 * spacing units := hpow
    _ ≤ roundHalfEven num (den * spacing units) * spacing units :=
        Nat.mul_le_mul_right _ (hbits.trans hround)

/-- **Rounding below a power of two.** -/
theorem roundUnits_lt_iff (hden : 0 < den) (p : ℕ) :
    roundUnits num den < 2 ^ (p + 53) ↔ 2 * num < (2 ^ 54 - 1) * 2 ^ p * den := by
  have hpow : 2 ^ (p + 53) = 2 ^ 53 * 2 ^ p := by rw [Nat.pow_add, Nat.mul_comm]
  have hpow' : 2 ^ (p + 52) = 2 ^ 52 * 2 ^ p := by rw [Nat.pow_add, Nat.mul_comm]
  by_cases hsmall : num / den < 2 ^ (p + 52)
  · refine iff_of_true (roundUnits_lt_of_lt hsmall) ?_
    have hnum : num < 2 ^ 52 * 2 ^ p * den := by
      rw [← hpow']
      exact (Nat.div_lt_iff_lt_mul hden).mp hsmall
    rw [Nat.mul_assoc] at hnum ⊢
    omega
  · by_cases hlarge : 2 ^ (p + 53) ≤ num / den
    · refine iff_of_false (Nat.not_lt.mpr (le_roundUnits_of_le (by omega) hlarge)) ?_
      have hnum : 2 ^ 53 * 2 ^ p * den ≤ num := by
        rw [← hpow]
        exact (Nat.le_div_iff_mul_le hden).mp hlarge
      rw [Nat.mul_assoc] at hnum ⊢
      omega
    · -- just below the power the spacing is known
      have hlog : (num / den).log2 = p + 52 := by
        have hne : num / den ≠ 0 := by
          intro hzero
          rw [hzero] at hsmall
          exact hsmall (Nat.two_pow_pos _)
        have hle := (Nat.le_log2 hne).mpr (Nat.not_lt.mp hsmall)
        have hlt := (Nat.log2_lt hne).mpr (Nat.not_le.mp hlarge)
        omega
      have hspacing : spacing (num / den) = 2 ^ p := by
        rw [spacing_eq, hlog, Nat.add_sub_cancel]
      rw [roundUnits_eq, hspacing, hpow, Nat.mul_lt_mul_right (Nat.two_pow_pos p),
        roundHalfEven_lt_iff (Nat.mul_pos hden (Nat.two_pow_pos p)) (by norm_num) (by norm_num)]
      have hscale : (2 * 2 ^ 53 - 1) * (den * 2 ^ p) = (2 ^ 54 - 1) * 2 ^ p * den := by
        rw [Nat.mul_assoc, Nat.mul_comm den]
        norm_num
      rw [hscale]

/-! ### The range -/

/-- The same, for a number in units of `2 ^ -e`. -/
theorem roundUnits_scaled_lt_iff (hden : 0 < den) (p e : ℕ) :
    roundUnits (num * 2 ^ e) den < 2 ^ (p + e + 54) ↔ num < (2 ^ 54 - 1) * 2 ^ p * den := by
  have hscale : (2 ^ 54 - 1) * 2 ^ (p + e + 1) * den = 2 * ((2 ^ 54 - 1) * 2 ^ p * den * 2 ^ e) := by
    rw [Nat.pow_succ, Nat.pow_add]
    ring
  rw [show p + e + 54 = p + e + 1 + 53 by rfl, roundUnits_lt_iff hden, hscale, Nat.mul_lt_mul_left (by omega),
    Nat.mul_lt_mul_right (Nat.two_pow_pos e)]

/-- The least number that is rounded out of range: half way from the largest finite number to `2 ^ 1024`. -/
def overflow : ℕ := (2 ^ 54 - 1) * 2 ^ 970

/-- **Range**: a quotient is rounded to a finite number exactly if it is below `overflow`. -/
theorem ofRatio_eq (hden : 0 < den) (negative : Bool) :
    ofRatio negative num den =
      if num < overflow * den then .finite negative (roundUnits (num * one) den) else .infinite negative := by
  have hiff : roundUnits (num * one) den < limit ↔ num < overflow * den :=
    roundUnits_scaled_lt_iff hden 970 1074
  simp only [ofRatio, ofUnits, hiff]

theorem ofRatio_zero (hden : 0 < den) (negative : Bool) : ofRatio negative 0 den = .finite negative 0 := by
  have hpos : 0 < overflow * den := by
    rw [overflow]
    positivity
  rw [ofRatio_eq hden, if_pos hpos, Nat.zero_mul]
  simp [roundUnits, roundHalfEven]

theorem isNegative_finite (units : ℕ) : isNegative (.finite false units) = false := rfl

/-- A number without a sign is not negative. -/
theorem isNegative_ofRatio (num den : ℕ) : isNegative (ofRatio false num den) = false := by
  simp only [ofRatio, ofUnits]
  split
  · exact isNegative_finite _
  · rfl

end CrateAudit.Binary64
