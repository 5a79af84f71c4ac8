import CrateAudit.Proofs.Number.Value

/-!
# Amounts

An amount is a number that is not negative, as it comes out of rounding. Sums of amounts are amounts
(`isAmount_sum`), so they are finite unless they are out of range, and a finite amount stays finite when it is divided
(`IsAmount.isFiniteAmount_divNat`). The reason is that rounding a rounded number does nothing (`roundUnits_roundUnits`): the
largest finite number is not rounded out of range.
-/

namespace CrateAudit.Binary64

variable {x y : Binary64} {xs : List Binary64} {num den units : ℕ}

/-! ### Rounded numbers -/

/-- A number that is a multiple of its spacing is not rounded. -/
theorem roundUnits_of_dvd (h : spacing units ∣ units) : roundUnits units 1 = units := by
  have hmod : units % spacing units = 0 := Nat.mod_eq_zero_of_dvd h
  rw [roundUnits_eq, Nat.div_one, Nat.one_mul, roundHalfEven]
  simp only [hmod, Nat.mul_zero, spacing_pos units, if_true]
  exact Nat.div_mul_cancel h

theorem roundHalfEven_spacing_le (num den : ℕ) : roundHalfEven num (den * spacing (num / den)) ≤ 2 ^ 53 := by
  generalize hunits : num / den = units
  have hround := roundHalfEven_le num (den * spacing units)
  rw [← Nat.div_div_eq_div_mul, hunits] at hround
  have hlt : units / spacing units < 2 ^ 53 := by
    rw [Nat.div_lt_iff_lt_mul (spacing_pos units), spacing_eq, ← Nat.pow_add]
    exact Nat.lt_log2_self.trans_le (Nat.pow_le_pow_right (by omega) (by omega))
  omega

/-- A number with 53 bits, up to a power of two, is a multiple of its spacing. -/
theorem spacing_dvd {k : ℕ} (hk : k ≤ 2 ^ 53) (e : ℕ) : spacing (k * 2 ^ e) ∣ k * 2 ^ e := by
  obtain rfl | hne := eq_or_ne k 0
  · simp
  have hne' : k * 2 ^ e ≠ 0 := Nat.mul_ne_zero hne (Nat.two_pow_pos e).ne'
  obtain hlt | rfl := Nat.lt_or_eq_of_le hk
  · -- the significand has 53 bits, so the spacing has not grown
    have hlog : (k * 2 ^ e).log2 < 53 + e := by
      rw [Nat.log2_lt hne', Nat.pow_add]
      exact Nat.mul_lt_mul_of_pos_right hlt (Nat.two_pow_pos e)
    rw [spacing_eq]
    exact Nat.dvd_mul_left_of_dvd (Nat.pow_dvd_pow 2 (by omega)) k
  · rw [spacing_eq, ← Nat.pow_add, Nat.log2_two_pow]
    exact Nat.pow_dvd_pow 2 (by omega)

/-- **Rounding twice** is rounding once. -/
theorem roundUnits_roundUnits (num den : ℕ) : roundUnits (roundUnits num den) 1 = roundUnits num den := by
  refine roundUnits_of_dvd ?_
  rw [roundUnits_eq]
  exact spacing_dvd (roundHalfEven_spacing_le num den) _

/-- The numbers of units that finite numbers have. -/
structure Representable (units : ℕ) : Prop where
  roundUnits_eq : roundUnits units 1 = units
  lt_limit : units < limit

theorem representable_roundUnits (h : roundUnits num den < limit) : Representable (roundUnits num den) :=
  ⟨roundUnits_roundUnits num den, h⟩

theorem representable_zero : Representable 0 := ⟨roundUnits_zero 1, limit_pos⟩

/-- A finite number stays in range when it is divided. -/
theorem Representable.roundUnits_lt (h : Representable units) {n : ℕ} (hn : 0 < n) : roundUnits units n < limit := by
  have hlt : roundUnits units 1 < limit := by
    rw [h.roundUnits_eq]
    exact h.lt_limit
  have hiff : ∀ n, 0 < n → (roundUnits units n < limit ↔ 2 * units < (2 ^ 54 - 1) * 2 ^ 2045 * n) :=
    fun n hn => roundUnits_lt_iff hn 2045
  rw [hiff 1 Nat.one_pos] at hlt
  rw [hiff n hn]
  exact hlt.trans_le (Nat.mul_le_mul_left _ hn)

/-! ### Amounts -/

/-- A number that is not negative. -/
inductive IsAmount : Binary64 → Prop where
  | infinite : IsAmount (.infinite false)
  | finite {negative : Bool} {units : ℕ} (hunits : Representable units) (hsign : negative = true → units = 0) :
      IsAmount (.finite negative units)

/-- A finite number that is not negative: its value is a natural number of units. -/
def IsFiniteAmount (x : Binary64) : Prop :=
  ∃ units : ℕ, units < limit ∧ x.value? = some ((units : ℤ) : WithTop ℤ)

theorem isAmount_zero : IsAmount zero := .finite representable_zero fun h => absurd h (by decide)

theorem isFiniteAmount_zero : IsFiniteAmount zero := ⟨0, limit_pos, rfl⟩

theorem IsAmount.isFiniteAmount (h : IsAmount x) (hx : x ≠ .infinite false) : IsFiniteAmount x := by
  cases h with
  | infinite => exact absurd rfl hx
  | @finite negative units hunits hsign =>
    refine ⟨units, hunits.lt_limit, ?_⟩
    cases negative with
    | false => rfl
    | true =>
      rw [hsign rfl]
      rfl

theorem not_isFiniteAmount_nan : ¬ IsFiniteAmount .nan := by
  rintro ⟨units, -, hvalue⟩
  cases hvalue

theorem not_isFiniteAmount_infinite (negative : Bool) : ¬ IsFiniteAmount (.infinite negative) := by
  rintro ⟨units, -, hvalue⟩
  cases negative <;> simp [value?] at hvalue

theorem isAmount_ofUnits {negative : Bool} (num den : ℕ) (h : negative = true → num = 0) :
    IsAmount (ofUnits negative num den) := by
  unfold ofUnits
  dsimp only
  split_ifs with hlt
  · refine .finite (representable_roundUnits hlt) fun hsign => ?_
    rw [h hsign, roundUnits_zero]
  · cases negative with
    | false => exact .infinite
    | true =>
      rw [h rfl, roundUnits_zero] at hlt
      exact absurd limit_pos hlt

theorem IsAmount.add (hx : IsAmount x) (hy : IsAmount y) : IsAmount (x.add y) := by
  cases hx with
  | infinite => cases hy <;> exact .infinite
  | @finite s a ha hs =>
    cases hy with
    | infinite => exact .infinite
    | @finite t b hb ht =>
      rw [Binary64.add]
      split_ifs with hsign heq hlt
      · exact isAmount_ofUnits _ _ fun h => by rw [hs h, ht (hsign ▸ h)]
      · exact isAmount_zero
      · exact isAmount_ofUnits _ _ fun h => by rw [hs h, Nat.zero_sub]
      · exact isAmount_ofUnits _ _ fun h => by rw [ht h, Nat.zero_sub]

/-- **Sums of amounts** are amounts. -/
theorem isAmount_sum (h : ∀ x ∈ xs, IsAmount x) : IsAmount (sum xs) :=
  sum_rel (R := fun x _ => IsAmount x) (fun _ _ _ _ hx hy => hx.add hy) isAmount_zero (List.forall₂_same.mpr h)

/-- An amount that is divided is finite, if it was. -/
theorem IsAmount.isFiniteAmount_divNat (h : IsAmount x) (hx : x ≠ .infinite false) {n : ℕ} (hn : 0 < n) :
    IsFiniteAmount (x.divNat n) := by
  cases h with
  | infinite => exact absurd rfl hx
  | @finite negative units hunits hsign =>
    refine (isAmount_ofUnits units n hsign).isFiniteAmount ?_
    rw [ofUnits]
    simp [hunits.roundUnits_lt hn]

end CrateAudit.Binary64
