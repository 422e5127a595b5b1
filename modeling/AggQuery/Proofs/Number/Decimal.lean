import AggQuery.Proofs.Number.Rounding

/-!
# Decimals near a word

A decimal whose value rounds to a finite word other than zero denotes that word
(`Binary64.ofDecimal_of_rounds`): its exponent is never so far out that the power of ten is
left out.

## Implementation notes

Powers of ten and of two are compared by one close pair of them, taken to a power: `10 ^ 59`
and `2 ^ 196` from one side, `2 ^ 93` and `10 ^ 28` from the other.
-/

namespace AggQuery

section Powers

/-- One comparison of powers of two numbers gives others, with exponents in its proportion. -/
theorem pow_le_pow_of_pow_le {a b p q c d : ℕ} (hp : p ≠ 0) (hb : 0 < b) (h : a ^ p ≤ b ^ q)
    (hle : q * c ≤ p * d) : a ^ c ≤ b ^ d := by
  have hpower : (a ^ c) ^ p ≤ (b ^ d) ^ p := by
    calc (a ^ c) ^ p = (a ^ p) ^ c := by rw [← pow_mul, ← pow_mul, Nat.mul_comm]
      _ ≤ (b ^ q) ^ c := Nat.pow_le_pow_left h c
      _ = b ^ (q * c) := by rw [← pow_mul]
      _ ≤ b ^ (p * d) := Nat.pow_le_pow_right hb hle
      _ = (b ^ d) ^ p := by rw [← pow_mul, Nat.mul_comm]
  exact (Nat.pow_le_pow_iff_left hp).mp hpower

theorem ten_pow_le_two_pow {c b : ℕ} (h : 196 * c ≤ 59 * b) : 10 ^ c ≤ 2 ^ b :=
  pow_le_pow_of_pow_le (by decide) (by decide) (by decide : 10 ^ 59 ≤ 2 ^ 196) h

theorem two_pow_le_ten_pow {b c : ℕ} (h : 28 * b ≤ 93 * c) : 2 ^ b ≤ 10 ^ c :=
  pow_le_pow_of_pow_le (by decide) (by decide) (by decide : 2 ^ 93 ≤ 10 ^ 28) h

theorem ten_zpow_neg_le {b c : ℕ} (h : 28 * b ≤ 93 * c) :
    (10 : ℚ) ^ (-(c : ℤ)) ≤ 2 ^ (-(b : ℤ)) := by
  have hle : (2 : ℚ) ^ b ≤ 10 ^ c := by exact_mod_cast two_pow_le_ten_pow h
  rw [zpow_neg, zpow_neg, zpow_natCast, zpow_natCast]
  gcongr

/-- A lower estimate of the decimal length from the binary one. -/
theorem ten_zpow_start_le {b : ℤ} (hleast : -2000 ≤ b) (hgreatest : b ≤ 2000) :
    (10 : ℚ) ^ (b * 30103 / 100000 - 1) ≤ 2 ^ b := by
  by_cases hb : 0 ≤ b
  · obtain ⟨n, rfl⟩ := Int.eq_ofNat_of_zero_le hb
    by_cases hc : 0 ≤ (n : ℤ) * 30103 / 100000 - 1
    · obtain ⟨c, hc⟩ := Int.eq_ofNat_of_zero_le hc
      rw [hc, zpow_natCast, zpow_natCast]
      have hle : 10 ^ c ≤ 2 ^ n := ten_pow_le_two_pow (by omega)
      exact_mod_cast hle
    · calc (10 : ℚ) ^ ((n : ℤ) * 30103 / 100000 - 1) ≤ 1 :=
            zpow_le_one_of_nonpos₀ (by norm_num) (by omega)
        _ ≤ 2 ^ (n : ℤ) := by
            rw [zpow_natCast]
            exact one_le_pow₀ (by norm_num)
  · obtain ⟨n, rfl⟩ : ∃ n : ℕ, b = -n := ⟨(-b).toNat, by omega⟩
    obtain ⟨c, hc⟩ : ∃ c : ℕ, -(n : ℤ) * 30103 / 100000 - 1 = -c :=
      ⟨(-(-(n : ℤ) * 30103 / 100000 - 1)).toNat, by omega⟩
    rw [hc]
    exact ten_zpow_neg_le (by omega)

end Powers

namespace Decimal

/-- The number that a decimal denotes. -/
def value (d : Decimal) : ℚ := d.digits * 10 ^ d.exponent

end Decimal

namespace Binary64

section Range

variable {x : Binary64}

theorem scale_le (hfinite : x.isFinite = true) : x.scale ≤ 971 := by
  have hfield : x.exponentField ≠ 2047 := by simpa [isFinite] using hfinite
  have hless : x.exponentField < 2048 := Nat.mod_lt _ (by decide)
  rw [scale]
  omega

/-- What rounds to a finite word is less than `10 ^ 309`. -/
theorem rounds_lt {r : ℚ} (hfinite : x.isFinite = true) (h : x.Rounds r) : r < 10 ^ (309 : ℤ) := by
  have hsignificand : (x.significand + 1 : ℚ) ≤ 2 ^ 53 := by
    exact_mod_cast x.significand_lt
  have hscale := x.scale_le hfinite
  have hunits : r / 2 ^ x.scale < 2 ^ 53 := by
    have := h.2.1
    linarith
  calc r < 2 ^ (x.scale + 53) := (div_lt_pow_iff _ _ 53).mp hunits
    _ ≤ 2 ^ (1024 : ℤ) := zpow_le_zpow_right₀ one_le_two (by omega)
    _ ≤ 10 ^ (309 : ℤ) := by
      exact_mod_cast (two_pow_le_ten_pow (by omega) : 2 ^ 1024 ≤ 10 ^ 309)

/-- What rounds to a word other than zero is at least `10 ^ -324`. -/
theorem le_rounds {r : ℚ} (hx : 0 < x.significand) (h : x.Rounds r) :
    10 ^ (-324 : ℤ) ≤ r := by
  have hsignificand : (1 : ℚ) ≤ x.significand := by exact_mod_cast hx
  have hgap := x.gapBelow_le
  have hhalf : (1 / 2 : ℚ) ≤ r / 2 ^ x.scale := by
    have := h.1
    linarith
  calc (10 : ℚ) ^ (-324 : ℤ) ≤ 2 ^ (-1075 : ℤ) := @ten_zpow_neg_le 1075 324 (by omega)
    _ = 1 / 2 * 2 ^ (-1074 : ℤ) := by
        rw [one_div, ← zpow_neg_one, ← zpow_add₀ (by norm_num)]
        norm_num
    _ ≤ 1 / 2 * 2 ^ x.scale :=
        mul_le_mul_of_nonneg_left (zpow_le_zpow_right₀ one_le_two x.scale_ge) one_half_pos.le
    _ ≤ r := (le_div_iff₀ (by positivity)).mp hhalf

end Range

theorem digits_pos_of_rounds {x : Binary64} (hx : 0 < x.significand) {d : Decimal}
    (h : x.Rounds d.value) : 0 < d.digits := by
  have hleast := le_rounds hx h
  apply Nat.pos_of_ne_zero
  intro hzero
  rw [Decimal.value, hzero, Nat.cast_zero, zero_mul] at hleast
  exact absurd hleast (not_le_of_gt (by positivity))

theorem decimalLength_bounds {digits : ℕ} (h : 0 < digits) :
    10 ^ (decimalLength digits - 1) ≤ digits ∧ digits < 10 ^ decimalLength digits := by
  have hpos : 0 < decimalLength digits := Nat.length_toDigits_pos
  constructor
  · rcases Nat.eq_or_lt_of_le hpos with hone | hmore
    · rw [← hone]
      exact h
    · apply Nat.le_of_not_lt
      intro hless
      have := (Nat.length_toDigits_le_iff (by decide) (by omega)).mpr hless
      rw [← decimalLength] at this
      omega
  · exact (Nat.length_toDigits_le_iff (by decide) hpos).mp (Nat.le_refl _)

/-- A decimal lies between powers of ten that its number of digits tells. -/
theorem decimal_bounds {digits : ℕ} (h : 0 < digits) (exponent : ℤ) :
    (10 : ℚ) ^ (decimalLength digits + exponent - 1) ≤ Decimal.value ⟨digits, exponent⟩ ∧
      Decimal.value ⟨digits, exponent⟩ < 10 ^ (decimalLength digits + exponent) := by
  have hpos : 0 < decimalLength digits := Nat.length_toDigits_pos
  obtain ⟨hlow, hhigh⟩ := decimalLength_bounds h
  have hlow' : (10 : ℚ) ^ (decimalLength digits - 1) ≤ digits := by exact_mod_cast hlow
  have hhigh' : (digits : ℚ) < 10 ^ decimalLength digits := by exact_mod_cast hhigh
  rw [Decimal.value]
  constructor
  · have hsplit : (decimalLength digits : ℤ) + exponent - 1 =
        (decimalLength digits - 1 : ℕ) + exponent := by omega
    rw [hsplit, zpow_add₀ (by norm_num), zpow_natCast]
    gcongr
  · rw [zpow_add₀ (by norm_num), zpow_natCast]
    gcongr

/-- A decimal whose value rounds to a finite word other than zero denotes the word. -/
theorem ofDecimal_of_rounds {x : Binary64} (hfinite : x.isFinite = true)
    (hx : 0 < x.significand) {digits : ℕ} {exponent : ℤ}
    (h : x.Rounds (Decimal.value ⟨digits, exponent⟩)) :
    ofDecimal x.isNegative digits exponent = x := by
  have hless := rounds_lt hfinite h
  have hleast := le_rounds hx h
  have hdigits : 0 < digits := digits_pos_of_rounds hx h
  obtain ⟨hlow, hhigh⟩ := decimal_bounds hdigits exponent
  have htop : ¬310 < (decimalLength digits : ℤ) + exponent := by
    have := (zpow_lt_zpow_iff_right₀ (by norm_num : (1 : ℚ) < 10)).mp (hlow.trans_lt hless)
    omega
  have hbottom : ¬(decimalLength digits : ℤ) + exponent < -330 := by
    have := (zpow_lt_zpow_iff_right₀ (by norm_num : (1 : ℚ) < 10)).mp (hleast.trans_lt hhigh)
    omega
  rw [ofDecimal, if_neg hdigits.ne']
  dsimp only
  rw [if_neg htop, if_neg hbottom]
  rw [Decimal.value] at h
  split
  · next hneg =>
      apply ofRatio_of_rounds hfinite hdigits (Nat.pow_pos (by decide))
      rw [zpow_of_neg 10 hneg] at h
      simpa [div_eq_mul_inv] using h
  · next hpos =>
      apply ofRatio_of_rounds hfinite (Nat.mul_pos hdigits (Nat.pow_pos (by decide))) Nat.one_pos
      rw [zpow_of_not_neg 10 hpos] at h
      simpa using h

end Binary64

end AggQuery
