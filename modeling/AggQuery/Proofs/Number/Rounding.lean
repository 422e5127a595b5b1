import AggQuery.Number.Decimal
import Mathlib.Algebra.Order.Field.Power
import Mathlib.Tactic.FieldSimp
import Mathlib.Tactic.Linarith
import Mathlib.Tactic.Positivity
import Mathlib.Tactic.Ring

/-!
# Rounding to the nearest word

A ratio in the rounding interval of a finite word is rounded to that word
(`Binary64.ofRatio_of_rounds`).

## Implementation notes

Ratios are rational numbers here. A number is measured in units of a power of two, in which
the words of one scale are the natural numbers below `2 ^ 53`.
-/

namespace AggQuery

section Powers

variable {e : ℤ} (b : ℚ)

/-- A power with a negative exponent, by the size of the exponent. -/
theorem zpow_of_neg (h : e < 0) : b ^ e = (b ^ e.natAbs)⁻¹ := by
  have hneg : e = -(e.natAbs : ℤ) := by omega
  conv_lhs => rw [hneg]
  rw [zpow_neg, zpow_natCast]

theorem zpow_of_not_neg (h : ¬e < 0) : b ^ e = b ^ e.natAbs := by
  have hpos : e = (e.natAbs : ℤ) := by omega
  conv_lhs => rw [hpos]
  rw [zpow_natCast]

end Powers

namespace Binary64

section Ratio

variable {num den : ℕ}

/-- The natural number that a rational number is rounded to; a half goes to the even one. -/
def Nearest (k : ℕ) (t : ℚ) : Prop :=
  k - 1 / 2 ≤ t ∧ t ≤ k + 1 / 2 ∧ (k % 2 = 1 → k - 1 / 2 < t ∧ t < k + 1 / 2)

/-- Division with a half rounded to even gives the nearest natural number. -/
theorem round_div_eq {n d k : ℕ} (hd : 0 < d) (h : Nearest k (n / d)) :
    (if d < 2 * (n % d) ∨ (d = 2 * (n % d) ∧ n / d % 2 = 1) then n / d + 1 else n / d) = k := by
  obtain ⟨hlow, hhigh, hodd⟩ := h
  have hd' : (0 : ℚ) < d := by exact_mod_cast hd
  have hlow' : 2 * (k * d) ≤ 2 * n + d := by
    have := (le_div_iff₀ hd').mp hlow
    exact_mod_cast (by linarith : (2 * (k * d) : ℚ) ≤ 2 * n + d)
  have hhigh' : 2 * n ≤ 2 * (k * d) + d := by
    have := (div_le_iff₀ hd').mp hhigh
    exact_mod_cast (by linarith : (2 * n : ℚ) ≤ 2 * (k * d) + d)
  have hodd' (hk : k % 2 = 1) : 2 * (k * d) < 2 * n + d ∧ 2 * n < 2 * (k * d) + d := by
    obtain ⟨hlow, hhigh⟩ := hodd hk
    have := (lt_div_iff₀ hd').mp hlow
    have := (div_lt_iff₀ hd').mp hhigh
    constructor
    · exact_mod_cast (by linarith : (2 * (k * d) : ℚ) < 2 * n + d)
    · exact_mod_cast (by linarith : (2 * n : ℚ) < 2 * (k * d) + d)
  have hn : n / d * d + n % d = n := by
    rw [Nat.mul_comm]
    exact Nat.div_add_mod n d
  have hr := Nat.mod_lt n hd
  generalize n / d = q at *
  generalize n % d = r at *
  have hk : k = q ∨ k = q + 1 := by
    rcases Nat.lt_trichotomy k q with hless | heq | hmore
    · have := Nat.mul_le_mul_right d (Nat.succ_le_of_lt hless)
      rw [Nat.succ_mul] at this
      omega
    · exact Or.inl heq
    · by_contra hne
      have := Nat.mul_le_mul_right d (by omega : q + 2 ≤ k)
      rw [Nat.add_mul] at this
      omega
  rcases hk with rfl | rfl
  · rw [if_neg]
    omega
  · rw [Nat.add_mul, Nat.one_mul] at hlow' hhigh' hodd'
    rw [if_pos]
    omega

/-- A ratio in units of a power of two, as a ratio of natural numbers. -/
theorem scaled_div (num den : ℕ) (e : ℤ) :
    ((if e < 0 then num <<< e.natAbs else num : ℕ) : ℚ) /
      ((if e < 0 then den else den <<< e.natAbs : ℕ) : ℚ) = num / den / 2 ^ e := by
  by_cases he : e < 0
  · rw [if_pos he, if_pos he, Nat.shiftLeft_eq, zpow_of_neg 2 he]
    push_cast
    field_simp
  · rw [if_neg he, if_neg he, Nat.shiftLeft_eq, zpow_of_not_neg 2 he]
    push_cast
    field_simp

theorem scaled_pos (hden : 0 < den) (e : ℤ) :
    0 < if e < 0 then den else den <<< e.natAbs := by
  rw [Nat.shiftLeft_eq]
  split
  · exact hden
  · positivity

/-- A ratio is rounded to the nearest natural number of units. -/
theorem roundScaled_eq (hden : 0 < den) {e : ℤ} {k : ℕ} (h : Nearest k (num / den / 2 ^ e)) :
    roundScaled num den e = k := by
  rw [← scaled_div] at h
  exact round_div_eq (scaled_pos hden e) h

theorem div_lt_pow_iff (r : ℚ) (e : ℤ) (k : ℕ) : r / 2 ^ e < 2 ^ k ↔ r < 2 ^ (e + k) := by
  rw [div_lt_iff₀ (by positivity), zpow_add₀ (by norm_num), mul_comm, zpow_natCast]

theorem pow_le_div_iff (r : ℚ) (e : ℤ) (k : ℕ) : 2 ^ k ≤ r / 2 ^ e ↔ 2 ^ (e + k) ≤ r := by
  rw [le_div_iff₀ (by positivity), zpow_add₀ (by norm_num), mul_comm, zpow_natCast]

theorem le_ratio_iff (hden : 0 < den) (e : ℤ) :
    (if e < 0 then decide (den <<< 53 ≤ num <<< e.natAbs)
      else decide (den <<< e.natAbs <<< 53 ≤ num)) = true ↔ (2 : ℚ) ^ (e + 53) ≤ num / den := by
  have hpos := scaled_pos hden e
  have hpos' : (0 : ℚ) < ((if e < 0 then den else den <<< e.natAbs : ℕ) : ℚ) := by
    exact_mod_cast hpos
  have hunits := pow_le_div_iff (num / den) e 53
  rw [← Nat.cast_ofNat (R := ℤ) (n := 53), ← hunits, ← scaled_div, le_div_iff₀ hpos']
  split <;> rw [decide_eq_true_iff, Nat.shiftLeft_eq _ 53, Nat.mul_comm] <;> norm_cast

/-- A ratio lies between powers of two that its binary lengths tell. -/
theorem ratio_bounds (hnum : 0 < num) (hden : 0 < den) :
    (2 : ℚ) ^ ((num.log2 : ℤ) - den.log2 - 1) < num / den ∧
      (num / den : ℚ) < 2 ^ ((num.log2 : ℤ) - den.log2 + 1) := by
  have hden' : (0 : ℚ) < den := by exact_mod_cast hden
  have hnumLow : (2 : ℚ) ^ num.log2 ≤ num := by exact_mod_cast Nat.log2_self_le hnum.ne'
  have hnumHigh : (num : ℚ) < 2 ^ (num.log2 + 1) := by exact_mod_cast Nat.lt_log2_self
  have hdenLow : (2 : ℚ) ^ den.log2 ≤ den := by exact_mod_cast Nat.log2_self_le hden.ne'
  have hdenHigh : (den : ℚ) < 2 ^ (den.log2 + 1) := by exact_mod_cast Nat.lt_log2_self
  constructor
  · rw [lt_div_iff₀ hden']
    calc (2 : ℚ) ^ ((num.log2 : ℤ) - den.log2 - 1) * den
        < 2 ^ ((num.log2 : ℤ) - den.log2 - 1) * 2 ^ (den.log2 + 1) := by gcongr
      _ = 2 ^ num.log2 := by
        rw [← zpow_natCast, ← zpow_natCast, ← zpow_add₀ (by norm_num)]
        congr 1
        omega
      _ ≤ num := hnumLow
  · rw [div_lt_iff₀ hden']
    calc (num : ℚ) < 2 ^ (num.log2 + 1) := hnumHigh
      _ = 2 ^ ((num.log2 : ℤ) - den.log2 + 1) * 2 ^ den.log2 := by
        rw [← zpow_natCast, ← zpow_natCast, ← zpow_add₀ (by norm_num)]
        congr 1
        omega
      _ ≤ 2 ^ ((num.log2 : ℤ) - den.log2 + 1) * den := by gcongr

/-- The scale of a ratio is the least one that leaves it below `2 ^ 53` units. -/
theorem scaleFor_spec (hnum : 0 < num) (hden : 0 < den) :
    -1074 ≤ scaleFor num den ∧ (num / den : ℚ) < 2 ^ (scaleFor num den + 53) ∧
      (scaleFor num den = -1074 ∨ (2 : ℚ) ^ (scaleFor num den + 52) ≤ num / den) := by
  obtain ⟨hlow, hhigh⟩ := ratio_bounds hnum hden
  have hlarge := @le_ratio_iff num den hden ((num.log2 : ℤ) - den.log2 - 53)
  have hscale : ∃ e : ℤ, scaleFor num den = max e (-1074) ∧ (num / den : ℚ) < 2 ^ (e + 53) ∧
      (2 : ℚ) ^ (e + 52) ≤ num / den := by
    by_cases h : (2 : ℚ) ^ ((num.log2 : ℤ) - den.log2 - 53 + 53) ≤ num / den
    · refine ⟨_, congrArg (max · (-1074)) (if_pos (hlarge.mpr h)), ?_, ?_⟩
      · rwa [add_right_comm, sub_add_cancel]
      · rwa [add_assoc]
    · refine ⟨_, congrArg (max · (-1074)) (if_neg (mt hlarge.mp h)), lt_of_not_ge h, ?_⟩
      have hexponent : (num.log2 : ℤ) - den.log2 - 53 + 52 = num.log2 - den.log2 - 1 := by omega
      rw [hexponent]
      exact hlow.le
  obtain ⟨e, hscale, hbelow, habove⟩ := hscale
  rw [hscale]
  refine ⟨le_max_right _ _, hbelow.trans_le ?_, ?_⟩
  · exact zpow_le_zpow_right₀ one_le_two (Int.add_le_add_right (le_max_left _ _) 53)
  · rcases le_total e (-1074) with hsmall | hlarge
    · exact Or.inl (max_eq_right hsmall)
    · rw [max_eq_left hlarge]
      exact Or.inr habove

end Ratio

section Word

variable {x : Binary64}

theorem fraction_lt (x : Binary64) : x.fraction < 2 ^ 52 := Nat.mod_lt _ (by decide)

/-- How far below the value of a word the numbers still round to it, in units of the last
place. -/
def gapBelow (x : Binary64) : ℚ := if x.fraction = 0 ∧ 1 < x.exponentField then 1 / 4 else 1 / 2

/-- A number between the midpoints to the neighbours of a word; the midpoints belong to it if
the significand is even. -/
def Rounds (x : Binary64) (r : ℚ) : Prop :=
  x.significand - x.gapBelow ≤ r / 2 ^ x.scale ∧ r / 2 ^ x.scale ≤ x.significand + 1 / 2 ∧
    (x.significand % 2 = 1 → x.significand - x.gapBelow < r / 2 ^ x.scale ∧
      r / 2 ^ x.scale < x.significand + 1 / 2)

theorem gapBelow_le (x : Binary64) : x.gapBelow ≤ 1 / 2 := by
  rw [gapBelow]
  split <;> norm_num

theorem gapBelow_ge (x : Binary64) : 1 / 4 ≤ x.gapBelow := by
  rw [gapBelow]
  split <;> norm_num

theorem significand_lt (x : Binary64) : x.significand < 2 ^ 53 := by
  have hfraction := x.fraction_lt
  rw [significand, Nat.one_shiftLeft]
  split <;> omega

theorem isNaN_of_isFinite {x : Binary64} (h : x.isFinite = true) : x.isNaN = false := by
  rw [isFinite, bne_iff_ne] at h
  simp [isNaN, h]

theorem isZero_iff (x : Binary64) : x.isZero = true ↔ x.significand = 0 := by
  rw [isZero, significand, Bool.and_eq_true, beq_iff_eq, beq_iff_eq, Nat.one_shiftLeft]
  split <;> omega

theorem scale_ge (x : Binary64) : -1074 ≤ x.scale := by
  rw [scale]
  omega

/-- Below the least scale there is no word, and above it no significand is short. -/
theorem scale_eq_or (x : Binary64) : x.scale = -1074 ∨ 2 ^ 52 ≤ x.significand := by
  rw [scale, significand, Nat.one_shiftLeft]
  split <;> omega

section Scale

variable {num den : ℕ} (hnum : 0 < num) (hden : 0 < den) (h : x.Rounds (num / den))

include hnum hden h

theorem scaleFor_le : scaleFor num den ≤ x.scale := by
  obtain ⟨hleast, -, hlow⟩ := scaleFor_spec hnum hden
  rcases hlow with heq | hlow
  · rw [heq]
    exact x.scale_ge
  have hsignificand : (x.significand + 1 : ℚ) ≤ 2 ^ 53 := by
    exact_mod_cast x.significand_lt
  have hbelow : (num / den : ℚ) < 2 ^ (x.scale + 53) := by
    apply (div_lt_pow_iff _ _ 53).mp
    have := h.2.1
    linarith
  have hpow := (zpow_lt_zpow_iff_right₀ one_lt_two).mp (hlow.trans_lt hbelow)
  omega

/-- The scale of a number that rounds to a word is that of the word, or the one below it
just below a power of two. -/
theorem scaleFor_cases : scaleFor num den = x.scale ∨
    (scaleFor num den = x.scale - 1 ∧ -1074 < x.scale ∧ x.significand = 2 ^ 52 ∧
      (num / den : ℚ) / 2 ^ x.scale < 2 ^ 52) := by
  have hle := scaleFor_le hnum hden h
  obtain ⟨hleast, hbelow, hlow⟩ := scaleFor_spec hnum hden
  rcases x.scale_eq_or with heq | hnormal
  · left
    omega
  by_cases hpower : (2 : ℚ) ^ 52 ≤ num / den / 2 ^ x.scale
  · left
    have hpow := (zpow_lt_zpow_iff_right₀ one_lt_two).mp
      (((pow_le_div_iff _ _ 52).mp hpower).trans_lt hbelow)
    omega
  · have hshort := lt_of_not_ge hpower
    have hgap := x.gapBelow_le
    have hsignificand : x.significand = 2 ^ 52 := by
      have hless : (x.significand : ℚ) < 2 ^ 52 + 1 := by
        have := h.1
        linarith
      have : x.significand < 2 ^ 52 + 1 := by exact_mod_cast hless
      omega
    have hhalf : (2 : ℚ) ^ 51 ≤ num / den / 2 ^ x.scale := by
      have := h.1
      rw [hsignificand] at this
      push_cast at this
      linarith
    have hpow := (zpow_lt_zpow_iff_right₀ one_lt_two).mp
      (((pow_le_div_iff _ _ 51).mp hhalf).trans_lt hbelow)
    rcases eq_or_ne x.scale (-1074) with heq | hne
    · left
      omega
    · right
      refine ⟨?_, by omega, hsignificand, hshort⟩
      by_contra hother
      have heq : scaleFor num den = x.scale := by omega
      rw [heq] at hlow
      rcases hlow with hlow | hlow
      · exact hne hlow
      · exact hpower ((pow_le_div_iff _ _ 52).mpr hlow)

end Scale

theorem gapBelow_of_power (hscale : -1074 < x.scale) (hsignificand : x.significand = 2 ^ 52) :
    x.gapBelow = 1 / 4 := by
  rw [scale] at hscale
  rw [significand, Nat.one_shiftLeft] at hsignificand
  rw [gapBelow, if_pos]
  split at hsignificand <;> omega

/-- The magnitude of a finite word, from its scale and its significand. -/
theorem magnitude_eq (x : Binary64) :
    ((x.scale + 1074).toNat <<< 52) + x.significand = x.word % 2 ^ 63 := by
  have hsplit : x.word % 2 ^ 63 = x.exponentField * 2 ^ 52 + x.fraction := by
    rw [exponentField, fraction, Nat.one_shiftLeft, Nat.shiftRight_eq_div_pow]
    omega
  rw [Nat.shiftLeft_eq, significand, scale, hsplit, Nat.one_shiftLeft]
  split
  · next h =>
      rw [h]
      simp
  · have : ((max x.exponentField 1 : ℕ) - 1075 + 1074 : ℤ).toNat = x.exponentField - 1 := by omega
    rw [this]
    omega

theorem ofMagnitude_word (x : Binary64) : ofMagnitude x.isNegative (x.word % 2 ^ 63) = x := by
  have hword : x.word % 2 ^ 63 + (if x.isNegative then 1 <<< 63 else 0) = x.bits.toNat := by
    have hlt : x.word < 2 ^ 64 := x.bits.toNat_lt
    rw [isNegative, Nat.one_shiftLeft]
    change _ = x.word
    by_cases h : 2 ^ 63 ≤ x.word
    · rw [if_pos (by simpa using h)]
      omega
    · rw [if_neg (by simpa using h)]
      omega
  rw [ofMagnitude, hword, UInt64.ofNat_toNat]

theorem zero_eq {x : Binary64} (h : x.significand = 0) : zero x.isNegative = x := by
  have hmagnitude := x.magnitude_eq
  have hscale : x.scale = -1074 := by
    rcases x.scale_eq_or with hscale | hlarge
    · exact hscale
    · omega
  rw [hscale, h] at hmagnitude
  have hword := ofMagnitude_word x
  rwa [← hmagnitude] at hword

theorem nearest_of_rounds {r : ℚ} (h : x.Rounds r) :
    Nearest x.significand (r / 2 ^ x.scale) := by
  have hgap := x.gapBelow_le
  obtain ⟨hlow, hhigh, hodd⟩ := h
  refine ⟨by linarith, hhigh, ?_⟩
  intro hparity
  obtain ⟨hlow, hhigh⟩ := hodd hparity
  exact ⟨by linarith, hhigh⟩

/-- Just below a power of two the units are half as long, and the power has `2 ^ 53`. -/
theorem nearest_power {r : ℚ} (h : x.Rounds r) (hscale : -1074 < x.scale)
    (hsignificand : x.significand = 2 ^ 52) (hshort : r / 2 ^ x.scale < 2 ^ 52) :
    Nearest (2 ^ 53) (r / 2 ^ (x.scale - 1)) := by
  have hhalf : r / 2 ^ (x.scale - 1) = 2 * (r / 2 ^ x.scale) := by
    rw [zpow_sub_one₀ (by norm_num)]
    field_simp
  have hlow := h.1
  rw [gapBelow_of_power hscale hsignificand, hsignificand] at hlow
  push_cast at hlow
  rw [hhalf]
  refine ⟨?_, ?_, fun hodd => ?_⟩
  · push_cast
    linarith
  · push_cast
    linarith
  · exact absurd hodd (by decide)

/-- A ratio that rounds to a finite word, in its interval, is rounded to it. -/
theorem ofRatio_of_rounds (hfinite : x.isFinite = true) {num den : ℕ} (hnum : 0 < num)
    (hden : 0 < den) (h : x.Rounds (num / den)) : ofRatio x.isNegative num den = x := by
  have hmagnitude : ((scaleFor num den + 1074).toNat <<< 52) +
      roundScaled num den (scaleFor num den) = x.word % 2 ^ 63 := by
    rw [← x.magnitude_eq]
    rcases scaleFor_cases hnum hden h with heq | ⟨heq, hscale, hsignificand, hshort⟩
    · rw [heq, roundScaled_eq hden (nearest_of_rounds h)]
    · rw [heq, roundScaled_eq hden (nearest_power h hscale hsignificand hshort), hsignificand,
        Nat.shiftLeft_eq, Nat.shiftLeft_eq]
      omega
  have hless : x.word % 2 ^ 63 < 2047 <<< 52 := by
    have hfield : x.exponentField ≠ 2047 := by simpa [isFinite] using hfinite
    have hlt : x.word < 2 ^ 64 := x.bits.toNat_lt
    rw [exponentField, Nat.shiftRight_eq_div_pow] at hfield
    rw [Nat.shiftLeft_eq]
    omega
  rw [ofRatio, if_neg hnum.ne']
  dsimp only
  rw [hmagnitude, if_pos hless, ofMagnitude_word]

end Word

end Binary64

end AggQuery
