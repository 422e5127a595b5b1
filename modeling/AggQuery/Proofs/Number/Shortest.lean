import AggQuery.Proofs.Number.Decimal

/-!
# Shortest decimals round back

The shortest decimal of a finite word other than zero lies in the rounding interval of that
word (`Binary64.rounds_shortest`).

## Implementation notes

The search for the decimal ends where a grid of powers of ten has a point in the interval. A
grid of eighteen digits always has one, since its steps are shorter than the interval.
-/

namespace AggQuery

namespace Binary64

section Interval

variable {x : Binary64} {p q : ℕ}

/-- A natural number of units of a word over a common denominator. -/
theorem exists_unit (x : Binary64) : ∃ up down : ℕ, 0 < up ∧ 0 < down ∧
    (2 : ℚ) ^ x.scale = up / down ∧ x.interval.value = 4 * x.significand * up ∧
    x.interval.upper = (4 * x.significand + 2) * up ∧ x.interval.denominator = 4 * down ∧
    (0 < x.significand → (x.interval.lower : ℚ) = 4 * (x.significand - x.gapBelow) * up) := by
  refine ⟨if x.scale < 0 then 1 else 1 <<< x.scale.natAbs,
    if x.scale < 0 then 1 <<< x.scale.natAbs else 1, ?_, ?_, ?_, rfl, rfl, rfl, ?_⟩
  · exact scaled_pos Nat.one_pos x.scale
  · rw [Nat.shiftLeft_eq]
    split <;> positivity
  · rw [← inv_div, scaled_div]
    simp
  · intro hx
    rw [interval, gapBelow]
    dsimp only
    split
    · push_cast [Nat.cast_sub (by omega : 1 ≤ 4 * x.significand)]
      ring
    · push_cast [Nat.cast_sub (by omega : 2 ≤ 4 * x.significand)]
      ring

theorem contains_interval_iff (hx : 0 < x.significand) (hq : 0 < q) :
    x.interval.contains p q = true ↔ x.Rounds (p / q) := by
  obtain ⟨up, down, hup, hdown, hscale, -, hupper, hdenominator, hlower⟩ := exists_unit x
  have hup' : (0 : ℚ) < up := by exact_mod_cast hup
  have hdown' : (0 : ℚ) < down := by exact_mod_cast hdown
  have hq' : (0 : ℚ) < q := by exact_mod_cast hq
  have hpos : (0 : ℚ) < 4 * up * q := by positivity
  have hpoint : ((p * x.interval.denominator : ℕ) : ℚ) =
      (p / q : ℚ) / 2 ^ x.scale * (4 * up * q) := by
    rw [hscale, hdenominator]
    push_cast
    field_simp
  have hlow : ((x.interval.lower * q : ℕ) : ℚ) =
      (x.significand - x.gapBelow) * (4 * up * q) := by
    push_cast
    rw [hlower hx]
    ring
  have hhigh : ((x.interval.upper * q : ℕ) : ℚ) =
      (x.significand + 1 / 2) * (4 * up * q) := by
    rw [hupper]
    push_cast
    ring
  have hclosed : x.interval.closed = (x.significand % 2 == 0) := rfl
  rw [RoundingInterval.contains, Rounds, hclosed]
  by_cases hparity : x.significand % 2 = 0
  · simp only [hparity, beq_self_eq_true, if_true, Bool.and_eq_true, decide_eq_true_eq,
      ← Nat.cast_le (α := ℚ), hpoint, hlow, hhigh, mul_le_mul_iff_left₀ hpos]
    simp
  · have hodd : x.significand % 2 = 1 := by omega
    simp only [hodd, Nat.reduceBEq, Bool.false_eq_true, if_false, Bool.and_eq_true,
      decide_eq_true_eq, ← Nat.cast_lt (α := ℚ), hpoint, hlow, hhigh, mul_lt_mul_iff_left₀ hpos]
    constructor
    · rintro ⟨hlow, hhigh⟩
      exact ⟨hlow.le, hhigh.le, fun _ => ⟨hlow, hhigh⟩⟩
    · rintro ⟨-, -, hstrict⟩
      exact hstrict trivial

end Interval

end Binary64

namespace RoundingInterval

/-- A power of ten, if it is a natural number, and one otherwise. -/
def gridUp (e : ℤ) : ℕ := if e < 0 then 1 else Nat.pow 10 e.natAbs

/-- The inverse of a power of ten, if it is a natural number, and one otherwise. -/
def gridDown (e : ℤ) : ℕ := if e < 0 then Nat.pow 10 e.natAbs else 1

theorem gridUp_pos (e : ℤ) : 0 < gridUp e := by
  rw [gridUp]
  split
  · exact Nat.one_pos
  · exact Nat.pow_pos (by decide)

theorem gridDown_pos (e : ℤ) : 0 < gridDown e := by
  rw [gridDown]
  split
  · exact Nat.pow_pos (by decide)
  · exact Nat.one_pos

theorem gridUp_div_gridDown (e : ℤ) : (gridUp e : ℚ) / gridDown e = 10 ^ e := by
  rw [gridUp, gridDown]
  by_cases he : e < 0
  · rw [if_pos he, if_pos he, zpow_of_neg 10 he]
    simp
  · rw [if_neg he, if_neg he, zpow_of_not_neg 10 he]
    simp

/-- The greatest grid point not above the value, in units of the grid. -/
def gridBelow (i : RoundingInterval) (e : ℤ) : ℕ :=
  i.value * gridDown e / (i.denominator * gridUp e)

/-- A grid gives one of its two points next to the value, which lies in the interval, or
none, and then the lower one does not. -/
theorem gridPoint_cases (i : RoundingInterval) (tie : TieRule) (k : ℤ) (n : ℕ) :
    (∃ a, i.gridPoint tie k n = some ⟨a, k - n⟩ ∧
      i.contains (a * gridUp (k - n)) (gridDown (k - n)) = true) ∨
    (i.gridPoint tie k n = none ∧
      i.contains (i.gridBelow (k - n) * gridUp (k - n)) (gridDown (k - n)) = false) := by
  unfold gridPoint
  dsimp only
  rw [← gridUp, ← gridDown, ← gridBelow]
  generalize i.gridBelow (k - n) = a
  cases hinner : i.contains (a * gridUp (k - n)) (gridDown (k - n)) with
  | false =>
      cases houter : i.contains ((a + 1) * gridUp (k - n)) (gridDown (k - n)) with
      | false => exact Or.inr ⟨rfl, rfl⟩
      | true => exact Or.inl ⟨a + 1, rfl, houter⟩
  | true =>
      left
      cases houter : i.contains ((a + 1) * gridUp (k - n)) (gridDown (k - n)) with
      | false => exact ⟨a, rfl, hinner⟩
      | true =>
          rw [if_pos (by rfl)]
          split
          · exact ⟨a, rfl, hinner⟩
          · split
            · exact ⟨a + 1, rfl, houter⟩
            · cases tie with
              | up => exact ⟨a + 1, rfl, houter⟩
              | toEven =>
                  by_cases heven : a % 2 = 0
                  · exact ⟨a, by rw [if_pos heven], hinner⟩
                  · exact ⟨a + 1, by rw [if_neg heven], houter⟩

theorem contains_of_gridPoint {i : RoundingInterval} {tie : TieRule} {k : ℤ} {n : ℕ}
    {d : Decimal} (h : i.gridPoint tie k n = some d) :
    ∃ p q : ℕ, 0 < q ∧ i.contains p q = true ∧ (p / q : ℚ) = d.value := by
  rcases i.gridPoint_cases tie k n with ⟨a, hpoint, hcontains⟩ | ⟨hnone, -⟩
  · rw [hpoint] at h
    obtain rfl := Option.some.inj h
    refine ⟨_, _, gridDown_pos (k - n), hcontains, ?_⟩
    rw [Decimal.value, ← gridUp_div_gridDown]
    push_cast
    ring
  · rw [hnone] at h
    cases h

/-- The search ends on some grid if the last one has a point. -/
theorem firstPoint_spec {i : RoundingInterval} (tie : TieRule) (k : ℤ) {fuel n : ℕ}
    (h : (i.gridPoint tie k (n + fuel)).isSome = true) :
    ∃ m, i.gridPoint tie k m = some (i.firstPoint tie k fuel n) := by
  induction fuel generalizing n with
  | zero =>
      rw [Nat.add_zero] at h
      obtain ⟨d, hd⟩ := Option.isSome_iff_exists.mp h
      refine ⟨n, ?_⟩
      rw [firstPoint, hd]
      rfl
  | succ fuel ih =>
      rw [firstPoint]
      cases hpoint : i.gridPoint tie k n with
      | some d => exact ⟨n, hpoint⟩
      | none =>
          apply ih
          rwa [Nat.add_right_comm, Nat.add_assoc]

/-- The number that an interval is about. -/
def center (i : RoundingInterval) : ℚ := i.value / i.denominator

theorem reached_iff {i : RoundingInterval} (hdenominator : 0 < i.denominator) (k : ℤ) :
    (if k < 0 then decide (i.value * Nat.pow 10 k.natAbs < i.denominator)
      else decide (i.value < i.denominator * Nat.pow 10 k.natAbs)) = true ↔
        i.center < 10 ^ k := by
  have hdown := gridDown_pos k
  have hcross : i.center < 10 ^ k ↔ i.value * gridDown k < gridUp k * i.denominator := by
    rw [center, ← gridUp_div_gridDown, div_lt_div_iff₀ (by exact_mod_cast hdenominator)
      (by exact_mod_cast hdown)]
    exact_mod_cast Iff.rfl
  rw [hcross, gridUp, gridDown]
  by_cases hk : k < 0
  · simp [hk]
  · simp [hk, Nat.mul_comm]

/-- The search for the decimal length does not go too far. -/
theorem magnitudeFrom_spec {i : RoundingInterval} (hdenominator : 0 < i.denominator) {k : ℤ}
    (h : (10 : ℚ) ^ (k - 1) ≤ i.center) (fuel : ℕ) :
    (10 : ℚ) ^ (i.magnitudeFrom fuel k - 1) ≤ i.center := by
  induction fuel generalizing k with
  | zero => exact h
  | succ fuel ih =>
      have hreached := reached_iff hdenominator k
      rw [magnitudeFrom]
      by_cases hless : i.center < 10 ^ k
      · rwa [if_pos (hreached.mpr hless)]
      · rw [if_neg (mt hreached.mp hless)]
        apply ih
        rw [add_sub_cancel_right]
        exact le_of_not_gt hless

/-- The decimal length of the value is not too large. -/
theorem magnitude_spec {i : RoundingInterval} (hvalue : 0 < i.value)
    (hdenominator : 0 < i.denominator) (hleast : (2 : ℚ) ^ (-1998 : ℤ) ≤ i.center)
    (hgreatest : i.center < 2 ^ (2000 : ℤ)) : (10 : ℚ) ^ (i.magnitude - 1) ≤ i.center := by
  obtain ⟨hlow, hhigh⟩ := Binary64.ratio_bounds hvalue hdenominator
  rw [← center] at hlow hhigh
  have hless := (zpow_lt_zpow_iff_right₀ one_lt_two).mp (hlow.trans hgreatest)
  have hmore := (zpow_lt_zpow_iff_right₀ one_lt_two).mp (hleast.trans_lt hhigh)
  apply magnitudeFrom_spec hdenominator
  exact (ten_zpow_start_le (by omega) (by omega)).trans hlow.le

/-- The lower grid point is at most one step of the grid below the value. -/
theorem gridBelow_bounds {i : RoundingInterval} (hdenominator : 0 < i.denominator) (e : ℤ) :
    i.gridBelow e * (10 : ℚ) ^ e ≤ i.center ∧ i.center < (i.gridBelow e + 1) * 10 ^ e := by
  have hup := gridUp_pos e
  have hdown := gridDown_pos e
  have hdown' : (0 : ℚ) < gridDown e := by exact_mod_cast hdown
  have hdenominator' : (0 : ℚ) < i.denominator := by exact_mod_cast hdenominator
  have hunit : 0 < i.denominator * gridUp e := Nat.mul_pos hdenominator hup
  have hlow := Nat.div_mul_le_self (i.value * gridDown e) (i.denominator * gridUp e)
  have hhigh := Nat.lt_div_mul_add (a := i.value * gridDown e) hunit
  rw [← gridBelow] at hlow hhigh
  rw [center, ← gridUp_div_gridDown, ← mul_div_assoc, ← mul_div_assoc,
    div_le_div_iff₀ hdown' hdenominator', div_lt_div_iff₀ hdenominator' hdown']
  constructor
  · have : i.gridBelow e * gridUp e * i.denominator ≤ i.value * gridDown e := by
      calc _ = i.gridBelow e * (i.denominator * gridUp e) := by ring
        _ ≤ _ := hlow
    exact_mod_cast this
  · have : i.value * gridDown e < (i.gridBelow e + 1) * gridUp e * i.denominator := by
      calc _ < _ := hhigh
        _ = _ := by ring
    exact_mod_cast this

end RoundingInterval

namespace Decimal

theorem trim_value (fuel : ℕ) (d : Decimal) : (d.trim fuel).value = d.value := by
  induction fuel generalizing d with
  | zero => rfl
  | succ fuel ih =>
      rw [trim]
      split
      · next h =>
          have hdigits : d.digits = d.digits / 10 * 10 := by omega
          rw [ih, value, value, zpow_add₀ (by norm_num), zpow_one]
          conv_rhs => rw [hdigits]
          push_cast
          ring
      · rfl

end Decimal

namespace Binary64

variable {x : Binary64}

theorem center_interval (x : Binary64) : x.interval.center = x.significand * 2 ^ x.scale := by
  obtain ⟨up, down, -, hdown, hscale, hvalue, -, hdenominator, -⟩ := exists_unit x
  have hdown' : (0 : ℚ) < down := by exact_mod_cast hdown
  rw [RoundingInterval.center, hvalue, hdenominator, hscale]
  push_cast
  field_simp

theorem interval_value_pos (hx : 0 < x.significand) : 0 < x.interval.value := by
  obtain ⟨up, down, hup, -, -, hvalue, -, -, -⟩ := exists_unit x
  rw [hvalue]
  positivity

theorem interval_denominator_pos (x : Binary64) : 0 < x.interval.denominator := by
  obtain ⟨up, down, -, hdown, -, -, -, hdenominator, -⟩ := exists_unit x
  rw [hdenominator]
  positivity

theorem ten_zpow_magnitude_le (hfinite : x.isFinite = true) (hx : 0 < x.significand) :
    (10 : ℚ) ^ (x.interval.magnitude - 1) ≤ x.significand * 2 ^ x.scale := by
  have hsmall : (1 : ℚ) ≤ x.significand := by exact_mod_cast hx
  have hlarge : (x.significand : ℚ) < 2 ^ 53 := by exact_mod_cast x.significand_lt
  have hscale := x.scale_ge
  have hscale' := x.scale_le hfinite
  rw [← center_interval]
  apply RoundingInterval.magnitude_spec (interval_value_pos hx) x.interval_denominator_pos
  · rw [center_interval]
    calc (2 : ℚ) ^ (-1998 : ℤ) ≤ 2 ^ x.scale := zpow_le_zpow_right₀ one_le_two (by omega)
      _ ≤ x.significand * 2 ^ x.scale := le_mul_of_one_le_left (by positivity) hsmall
  · rw [center_interval]
    calc x.significand * (2 : ℚ) ^ x.scale < 2 ^ 53 * 2 ^ x.scale := by gcongr
      _ = 2 ^ (x.scale + 53) := by
          rw [zpow_add₀ (by norm_num), mul_comm]
          norm_cast
      _ ≤ 2 ^ (2000 : ℤ) := zpow_le_zpow_right₀ one_le_two (by omega)

/-- The steps of a grid of eighteen digits are less than a quarter of the last place. -/
theorem ten_zpow_step_lt (hfinite : x.isFinite = true) (hx : 0 < x.significand) :
    (10 : ℚ) ^ (x.interval.magnitude - 18) / 2 ^ x.scale < 1 / 4 := by
  have hlarge : (x.significand : ℚ) < 2 ^ 53 := by exact_mod_cast x.significand_lt
  have hmagnitude := ten_zpow_magnitude_le hfinite hx
  have hsplit : (10 : ℚ) ^ (x.interval.magnitude - 1) =
      10 ^ (x.interval.magnitude - 18) * 10 ^ 17 := by
    rw [← zpow_natCast, ← zpow_add₀ (by norm_num)]
    congr 1
    push_cast
    ring
  have hunit : (0 : ℚ) < 2 ^ x.scale := by positivity
  have hless : x.significand * (2 : ℚ) ^ x.scale < 2 ^ 53 * 2 ^ x.scale := by gcongr
  rw [hsplit] at hmagnitude
  rw [div_lt_iff₀ hunit]
  linarith

/-- A number below the value by less than a quarter of the last place rounds to the word. -/
theorem rounds_of_step {r step : ℚ} (hstep : step / 2 ^ x.scale < 1 / 4)
    (hlow : r ≤ x.interval.center) (hhigh : x.interval.center < r + step) : x.Rounds r := by
  have hgap := x.gapBelow_ge
  have hunit : (0 : ℚ) < 2 ^ x.scale := by positivity
  rw [center_interval] at hlow hhigh
  have hunits : r / 2 ^ x.scale ≤ x.significand := by rwa [div_le_iff₀ hunit]
  have hunits' : (x.significand : ℚ) < r / 2 ^ x.scale + step / 2 ^ x.scale := by
    rwa [← add_div, lt_div_iff₀ hunit]
  refine ⟨by linarith, by linarith, fun _ => ⟨by linarith, by linarith⟩⟩

/-- A grid of eighteen digits has a point that rounds to the word. -/
theorem gridPoint_eighteen (hfinite : x.isFinite = true) (hx : 0 < x.significand)
    (tie : TieRule) : (x.interval.gridPoint tie x.interval.magnitude 18).isSome = true := by
  rcases x.interval.gridPoint_cases tie x.interval.magnitude 18 with ⟨a, hpoint, -⟩ | ⟨-, hfalse⟩
  · rw [hpoint]
    rfl
  · have hstep := ten_zpow_step_lt hfinite hx
    obtain ⟨hlow, hhigh⟩ := RoundingInterval.gridBelow_bounds x.interval_denominator_pos
      (x.interval.magnitude - (18 : ℕ))
    have hrounds := rounds_of_step hstep hlow (by rwa [add_one_mul] at hhigh)
    rw [← RoundingInterval.gridUp_div_gridDown, ← mul_div_assoc, ← Nat.cast_mul] at hrounds
    rw [(contains_interval_iff hx (RoundingInterval.gridDown_pos _)).mpr hrounds] at hfalse
    cases hfalse

/-- The shortest decimal of a finite word rounds to the word. -/
theorem rounds_shortest (hfinite : x.isFinite = true) (hx : 0 < x.significand) (tie : TieRule) :
    x.Rounds (x.shortest tie).value := by
  have hzero : ¬x.isZero = true := mt x.isZero_iff.mp hx.ne'
  obtain ⟨n, hpoint⟩ := @RoundingInterval.firstPoint_spec x.interval tie x.interval.magnitude
    17 1 (gridPoint_eighteen hfinite hx tie)
  obtain ⟨p, q, hq, hcontains, hvalue⟩ := RoundingInterval.contains_of_gridPoint hpoint
  have hrounds := (contains_interval_iff hx hq).mp hcontains
  rw [shortest, if_neg hzero]
  dsimp only
  rw [Decimal.trim_value]
  rwa [hvalue] at hrounds

end Binary64

end AggQuery
