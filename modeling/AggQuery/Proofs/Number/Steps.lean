import AggQuery.Number.Steps
import AggQuery.Proofs.Number.Decimal

/-!
# Decimals that steps round correctly

Where the digits of a decimal are below `2 ^ 53` and its exponent is at most twenty-two in
size, rounding in steps gives the nearest word (`Binary64.ofSteps?_of_short`).

## Implementation notes

Both the digits and the power of ten are words then, so only the last of the steps rounds.
That the nearest word depends on a ratio alone, and not on its terms, is a matter of the scale:
two scales of one ratio are equal (`scaleFor_congr`).
-/

namespace AggQuery.Binary64

section Ratio

variable {num den num' den' : ℕ}

/-- Division with a half rounded to even is nearest to the ratio. -/
theorem nearest_round_div (n : ℕ) {d : ℕ} (hd : 0 < d) :
    Nearest (if d < 2 * (n % d) ∨ (d = 2 * (n % d) ∧ n / d % 2 = 1) then n / d + 1 else n / d)
      (n / d) := by
  have hd' : (0 : ℚ) < d := by exact_mod_cast hd
  have hsplit : d * (n / d) + n % d = n := Nat.div_add_mod n d
  have hr := Nat.mod_lt n hd
  generalize n / d = q at *
  generalize n % d = r at *
  have hratio : (n : ℚ) / d = q + r / d := by
    rw [← hsplit]
    push_cast
    field_simp
  have hlow : (0 : ℚ) ≤ r / d := by positivity
  have hhigh : (r / d : ℚ) < 1 := (div_lt_one hd').mpr (by exact_mod_cast hr)
  have hhalf : (1 / 2 : ℚ) < r / d ↔ d < 2 * r := by
    rw [div_lt_div_iff₀ two_pos hd', one_mul, mul_comm]
    exact_mod_cast Iff.rfl
  have hhalf' : (r / d : ℚ) < 1 / 2 ↔ 2 * r < d := by
    rw [div_lt_div_iff₀ hd' two_pos, one_mul, mul_comm]
    exact_mod_cast Iff.rfl
  rw [hratio]
  split
  · have hup : ¬(r / d : ℚ) < 1 / 2 := mt hhalf'.mp (by omega)
    refine ⟨by push_cast; linarith, by push_cast; linarith, fun hodd => ?_⟩
    have hstrict := hhalf.mpr (by omega)
    constructor <;> push_cast <;> linarith
  · have hdown : ¬(1 / 2 : ℚ) < r / d := mt hhalf.mp (by omega)
    refine ⟨by linarith, by linarith, fun hodd => ?_⟩
    have hstrict := hhalf'.mpr (by omega)
    constructor <;> linarith

/-- What a ratio is rounded to is nearest to it. -/
theorem nearest_roundScaled (hden : 0 < den) (e : ℤ) :
    Nearest (roundScaled num den e) (num / den / 2 ^ e) := by
  rw [← scaled_div]
  exact nearest_round_div _ (scaled_pos hden e)

/-- The scale of a ratio does not depend on its terms. -/
theorem scaleFor_congr (hnum : 0 < num) (hden : 0 < den) (hnum' : 0 < num') (hden' : 0 < den')
    (h : (num / den : ℚ) = num' / den') : scaleFor num den = scaleFor num' den' := by
  have hle {e e' : ℤ} {r : ℚ} (he : -1074 ≤ e) (hbelow : r < 2 ^ (e + 53))
      (habove : e' = -1074 ∨ (2 : ℚ) ^ (e' + 52) ≤ r) : e' ≤ e := by
    rcases habove with rfl | habove
    · exact he
    · have := (zpow_lt_zpow_iff_right₀ one_lt_two).mp (habove.trans_lt hbelow)
      omega
  obtain ⟨hleast, hbelow, habove⟩ := scaleFor_spec hnum hden
  obtain ⟨hleast', hbelow', habove'⟩ := scaleFor_spec hnum' hden'
  rw [h] at hbelow habove
  exact le_antisymm (hle hleast' hbelow' habove) (hle hleast hbelow habove')

/-- The word nearest to a ratio does not depend on its terms. -/
theorem ofRatio_congr (negative : Bool) (hden : 0 < den) (hden' : 0 < den')
    (h : (num / den : ℚ) = num' / den') : ofRatio negative num den = ofRatio negative num' den' := by
  have hden₀ : (den : ℚ) ≠ 0 := by exact_mod_cast hden.ne'
  have hden₀' : (den' : ℚ) ≠ 0 := by exact_mod_cast hden'.ne'
  have hcross : num * den' = num' * den := by
    exact_mod_cast (div_eq_div_iff hden₀ hden₀').mp h
  have hzero : num = 0 ↔ num' = 0 := by
    constructor
    · rintro rfl
      simpa [hden.ne'] using hcross
    · rintro rfl
      simpa [hden'.ne'] using hcross
  rw [ofRatio, ofRatio]
  by_cases hnum : num = 0
  · rw [if_pos hnum, if_pos (hzero.mp hnum)]
  · have hnum' := mt hzero.mpr hnum
    have hscale := scaleFor_congr (Nat.pos_of_ne_zero hnum) hden (Nat.pos_of_ne_zero hnum') hden' h
    have hround : roundScaled num den (scaleFor num' den') =
        roundScaled num' den' (scaleFor num' den') := by
      apply roundScaled_eq hden
      rw [h]
      exact nearest_roundScaled hden' _
    rw [if_neg hnum, if_neg hnum', hscale]
    dsimp only
    rw [hround]

end Ratio

section Value

/-- The number that the magnitude of a finite word denotes. -/
def value (x : Binary64) : ℚ := x.significand * 2 ^ x.scale

theorem word_ofMagnitude {magnitude : ℕ} (h : magnitude < 2 ^ 63) (negative : Bool) :
    (ofMagnitude negative magnitude).word = magnitude + if negative then 2 ^ 63 else 0 := by
  rw [word, ofMagnitude, Nat.one_shiftLeft, UInt64.toNat_ofNat']
  apply Nat.mod_eq_of_lt
  split <;> omega

/-- The scale and the significand of a finite word, from its magnitude. -/
theorem ofMagnitude_fields {e : ℤ} {k : ℕ} (hleast : -1074 ≤ e) (hgreatest : e ≤ 971)
    (hk : k < 2 ^ 53) (hlow : e = -1074 ∨ 2 ^ 52 ≤ k) :
    (ofMagnitude false (((e + 1074).toNat <<< 52) + k)).significand = k ∧
      (ofMagnitude false (((e + 1074).toNat <<< 52) + k)).scale = e := by
  obtain ⟨n, hn⟩ : ∃ n : ℕ, e + 1074 = n := Int.eq_ofNat_of_zero_le (by omega)
  have hmagnitude : (n <<< 52) + k < 2 ^ 63 := by
    rw [Nat.shiftLeft_eq]
    omega
  have hword := word_ofMagnitude hmagnitude false
  rw [if_neg Bool.false_ne_true, Nat.add_zero, Nat.shiftLeft_eq] at hword
  have hexponent : (ofMagnitude false ((n <<< 52) + k)).exponentField =
      if 2 ^ 52 ≤ k then n + 1 else n := by
    rw [exponentField, Nat.shiftRight_eq_div_pow, Nat.shiftLeft_eq, hword]
    split <;> omega
  have hfraction : (ofMagnitude false ((n <<< 52) + k)).fraction =
      if 2 ^ 52 ≤ k then k - 2 ^ 52 else k := by
    rw [fraction, Nat.one_shiftLeft, Nat.shiftLeft_eq, hword]
    split <;> omega
  rw [hn, Int.toNat_natCast, significand, scale, hexponent, hfraction, Nat.one_shiftLeft]
  by_cases hlarge : 2 ^ 52 ≤ k
  · simp only [if_pos hlarge]
    constructor
    · rw [if_neg (by omega)]
      omega
    · omega
  · simp only [if_neg hlarge]
    have hzero : n = 0 := by omega
    constructor
    · rw [if_pos hzero]
    · omega

/-- Fifty-three binary digits before some zeros are a word. -/
theorem value_ofRatio {a b : ℕ} (ha : a < 2 ^ 53) (hb : b ≤ 971) :
    (ofRatio false (a * 2 ^ b) 1).value = a * 2 ^ b := by
  rcases Nat.eq_zero_or_pos a with rfl | hpos
  · rw [Nat.zero_mul, ofRatio, if_pos rfl, Nat.cast_zero, zero_mul, value,
      (by decide : (zero false).significand = 0), Nat.cast_zero, zero_mul]
  have hnum : 0 < a * 2 ^ b := by positivity
  obtain ⟨hleast, hbelow, habove⟩ := scaleFor_spec hnum Nat.one_pos
  generalize he : scaleFor (a * 2 ^ b) 1 = e at *
  rw [Nat.cast_one, div_one, Nat.cast_mul, Nat.cast_pow, Nat.cast_ofNat] at hbelow habove
  have hle : e ≤ b := by
    rcases habove with rfl | habove
    · omega
    · have hless : (a * 2 ^ b : ℚ) < 2 ^ ((b : ℤ) + 53) := by
        rw [zpow_add₀ (by norm_num), zpow_natCast, mul_comm]
        gcongr
        exact_mod_cast ha
      have := (zpow_lt_zpow_iff_right₀ one_lt_two).mp (habove.trans_lt hless)
      omega
  -- The number of units of the scale is a natural number, so nothing is rounded.
  obtain ⟨shift, hshift⟩ := Int.eq_ofNat_of_zero_le (by omega : 0 ≤ (b : ℤ) - e)
  have hunits : (a * 2 ^ b : ℚ) / 2 ^ e = (a * 2 ^ shift : ℕ) := by
    have hsplit : (b : ℤ) = shift + e := by omega
    rw [← zpow_natCast, hsplit, zpow_add₀ (by norm_num), zpow_natCast]
    push_cast
    field_simp
  have hround : roundScaled (a * 2 ^ b) 1 e = a * 2 ^ shift := by
    apply roundScaled_eq Nat.one_pos
    rw [Nat.cast_one, div_one, Nat.cast_mul, Nat.cast_pow, Nat.cast_ofNat, hunits]
    exact ⟨by linarith, by linarith, fun _ => ⟨by linarith, by linarith⟩⟩
  have hk : a * 2 ^ shift < 2 ^ 53 := by
    have := (div_lt_pow_iff _ _ 53).mpr hbelow
    rw [hunits] at this
    exact_mod_cast this
  have hlow : e = -1074 ∨ 2 ^ 52 ≤ a * 2 ^ shift := by
    apply habove.imp_right
    intro habove
    have := (pow_le_div_iff _ _ 52).mpr habove
    rw [hunits] at this
    exact_mod_cast this
  obtain ⟨hsignificand, hscale⟩ := ofMagnitude_fields hleast (by omega) hk hlow
  have hfinite : ((e + 1074).toNat <<< 52) + a * 2 ^ shift < 2047 <<< 52 := by
    rw [Nat.shiftLeft_eq, Nat.shiftLeft_eq]
    omega
  rw [ofRatio, if_neg hnum.ne']
  dsimp only
  rw [he, hround, if_pos hfinite, value, hsignificand, hscale, ← hunits]
  field_simp

/-- The powers of ten that are words. -/
theorem value_powerOfTen {n : ℕ} (h : n ≤ 22) : (powerOfTen n).value = 10 ^ n := by
  have hfive : 5 ^ n < 2 ^ 53 :=
    (Nat.pow_le_pow_right (by decide) h).trans_lt (by decide : 5 ^ 22 < 2 ^ 53)
  have hten : 1 * 10 ^ n = 5 ^ n * 2 ^ n := by rw [Nat.one_mul, ← Nat.mul_pow]
  have hpower : powerOfTen n = ofRatio false (5 ^ n * 2 ^ n) 1 := by
    rw [powerOfTen, ofDecimal, if_neg one_ne_zero]
    have hlength : decimalLength 1 = 1 := rfl
    dsimp only
    rw [if_neg (by omega), if_neg (by omega), if_neg (by omega), Int.natAbs_natCast]
    exact congrArg (ofRatio false · 1) hten
  rw [hpower, value_ofRatio hfive (by omega)]
  push_cast
  rw [← mul_pow]
  norm_num

end Value

section Operations

variable {x y : Binary64} {num den : ℕ}

theorem ofScaled_eq {num' den' : ℕ} {e : ℤ} (hden : 0 < den) (hden' : 0 < den')
    (h : (num / den : ℚ) * 2 ^ e = num' / den') : ofScaled num den e = ofRatio false num' den' := by
  rw [ofScaled]
  split
  · next hneg =>
      apply ofRatio_congr false (by rw [Nat.shiftLeft_eq]; positivity) hden'
      rw [← h, zpow_of_neg 2 hneg, Nat.shiftLeft_eq]
      push_cast
      field_simp
  · next hpos =>
      apply ofRatio_congr false hden hden'
      rw [← h, zpow_of_not_neg 2 hpos, Nat.shiftLeft_eq]
      push_cast
      ring

/-- A product is rounded once. -/
theorem mulMagnitudes_eq (hden : 0 < den) (h : x.value * y.value = num / den) :
    x.mulMagnitudes y = ofRatio false num den := by
  apply ofScaled_eq Nat.one_pos hden
  rw [← h, value, value, zpow_add₀ (by norm_num)]
  push_cast
  ring

/-- A quotient is rounded once. -/
theorem divMagnitudes_eq (hy : y.value ≠ 0) (hden : 0 < den) (h : x.value / y.value = num / den) :
    x.divMagnitudes y = ofRatio false num den := by
  have hpos : y.significand ≠ 0 := by
    intro hzero
    rw [value, hzero, Nat.cast_zero, zero_mul] at hy
    exact hy rfl
  have hpos' : (y.significand : ℚ) ≠ 0 := by exact_mod_cast hpos
  apply ofScaled_eq (Nat.pos_of_ne_zero hpos) hden
  rw [← h, value, value, zpow_sub₀ (by norm_num)]
  field_simp

end Operations

section Finite

theorem isFinite_ofMagnitude {magnitude : ℕ} (h : magnitude < 2047 <<< 52) (negative : Bool) :
    (ofMagnitude negative magnitude).isFinite = true := by
  rw [Nat.shiftLeft_eq] at h
  have hword := word_ofMagnitude (by omega : magnitude < 2 ^ 63) negative
  rw [isFinite, bne_iff_ne, exponentField, hword, Nat.shiftRight_eq_div_pow]
  split <;> omega

/-- A ratio far below the greatest finite word is rounded to a finite one. -/
theorem isFinite_ofRatio {num den : ℕ} (hden : 0 < den) (h : (num / den : ℚ) < 2 ^ (200 : ℤ))
    (negative : Bool) : (ofRatio negative num den).isFinite = true := by
  rw [ofRatio]
  split
  · exact isFinite_ofMagnitude (by decide) negative
  · next hnum =>
      obtain ⟨hleast, hbelow, habove⟩ := scaleFor_spec (Nat.pos_of_ne_zero hnum) hden
      have hscale : scaleFor num den ≤ 147 := by
        rcases habove with heq | habove
        · omega
        · have := (zpow_lt_zpow_iff_right₀ one_lt_two).mp (habove.trans_lt h)
          omega
      have hround : roundScaled num den (scaleFor num den) ≤ 2 ^ 53 := by
        have hnearest : Nearest (roundScaled num den (scaleFor num den))
            (num / den / 2 ^ scaleFor num den) := nearest_roundScaled hden _
        have hunits := (div_lt_pow_iff _ _ 53).mpr hbelow
        have hless : (roundScaled num den (scaleFor num den) : ℚ) < 2 ^ 53 + 1 := by
          linarith [hnearest.1]
        have : roundScaled num den (scaleFor num den) < 2 ^ 53 + 1 := by exact_mod_cast hless
        omega
      have hmagnitude : ((scaleFor num den + 1074).toNat <<< 52) +
          roundScaled num den (scaleFor num den) < 2047 <<< 52 := by
        rw [Nat.shiftLeft_eq, Nat.shiftLeft_eq]
        omega
      dsimp only
      rw [if_pos hmagnitude]
      exact isFinite_ofMagnitude hmagnitude negative

end Finite

section Sign

variable (negative : Bool)

theorem withSign_ofMagnitude {magnitude : ℕ} (h : magnitude < 2 ^ 63) :
    (ofMagnitude false magnitude).withSign negative = ofMagnitude negative magnitude := by
  rw [withSign, word_ofMagnitude h, if_neg Bool.false_ne_true, Nat.add_zero]

theorem withSign_ofRatio (num den : ℕ) :
    (ofRatio false num den).withSign negative = ofRatio negative num den := by
  rw [ofRatio, ofRatio]
  split
  · exact withSign_ofMagnitude negative (by decide)
  · dsimp only
    split
    · next h =>
        apply withSign_ofMagnitude
        rw [Nat.shiftLeft_eq _ 52] at h ⊢
        omega
    · exact withSign_ofMagnitude negative (by decide)

/-- The sign of a decimal does not matter for the magnitude of its word. -/
theorem withSign_ofDecimal (digits : ℕ) (exponent : ℤ) :
    (ofDecimal false digits exponent).withSign negative = ofDecimal negative digits exponent := by
  rw [ofDecimal, ofDecimal]
  dsimp only
  split
  · exact withSign_ofMagnitude negative (by decide)
  split
  · exact withSign_ofMagnitude negative (by decide)
  split
  · exact withSign_ofMagnitude negative (by decide)
  split <;> exact withSign_ofRatio negative _ _

end Sign

section Short

variable {digits : ℕ} {exponent : ℤ} (hdigits : digits < 2 ^ 53) (hexponent : exponent.natAbs ≤ 22)

include hdigits hexponent

theorem ofDecimal_of_short (negative : Bool) :
    ofDecimal negative digits exponent =
      if exponent < 0 then ofRatio negative digits (10 ^ exponent.natAbs)
      else ofRatio negative (digits * 10 ^ exponent.natAbs) 1 := by
  have hlength : decimalLength digits ≤ 16 :=
    (Nat.length_toDigits_le_iff (by decide) (by decide)).mpr (hdigits.trans (by decide))
  rw [ofDecimal]
  split
  · next hzero => simp [hzero, ofRatio]
  · dsimp only
    rw [if_neg (by omega), if_neg (by omega)]
    rfl

/-- Short decimals are rounded correctly: one step of two is exact. -/
theorem ofSteps?_of_short : ofSteps? digits exponent = some (ofDecimal false digits exponent) := by
  have hx : (ofRatio false digits 1).value = digits := by
    simpa using value_ofRatio (b := 0) hdigits (Nat.zero_le _)
  have hpower := value_powerOfTen hexponent
  have hten : (0 : ℚ) < 10 ^ exponent.natAbs := by positivity
  rw [ofDecimal_of_short hdigits hexponent, ofSteps?]
  dsimp only
  split
  · have hsteps : (exponent.natAbs - 1) / greatestPower = 0 :=
      Nat.div_eq_of_lt (by rw [greatestPower]; omega)
    rw [hsteps, lowered]
    apply congrArg some
    apply divMagnitudes_eq (by rw [hpower]; exact hten.ne') (by positivity)
    rw [hx, hpower]
    push_cast
    rfl
  · have hproduct : (ofRatio false digits 1).mulMagnitudes (powerOfTen exponent.natAbs) =
        ofRatio false (digits * 10 ^ exponent.natAbs) 1 := by
      apply mulMagnitudes_eq Nat.one_pos
      rw [hx, hpower]
      push_cast
      rw [div_one]
    have hsmall : ((digits * 10 ^ exponent.natAbs : ℕ) / (1 : ℕ) : ℚ) < 2 ^ (200 : ℤ) := by
      have hle : digits * 10 ^ exponent.natAbs < 2 ^ 200 := by
        calc digits * 10 ^ exponent.natAbs ≤ digits * 10 ^ 22 :=
              Nat.mul_le_mul_left _ (Nat.pow_le_pow_right (by decide) hexponent)
          _ < 2 ^ 53 * 10 ^ 22 := by omega
          _ < 2 ^ 200 := by decide
      rw [Nat.cast_one, div_one]
      exact_mod_cast hle
    rw [if_pos (by rw [greatestPower]; omega), hproduct,
      if_pos (isFinite_ofRatio Nat.one_pos hsmall false)]

end Short

end AggQuery.Binary64
