import AggQuery.Proofs.Document.DecimalText
import AggQuery.Proofs.Document.Legible
import AggQuery.Proofs.Number.Shortest

/-!
# Floating-point text

The text of a finite floating-point number is a decimal text that denotes the shortest decimal
of the number, which rounds back to it (`Layout.exists_decimalText`). A document reader rounds
in steps, so not every number is read back from its text. Whether one is does not depend on
what stands behind it (`Lexeme.numberReads_float_iff`), and one with a short decimal is
(`Lexeme.numberReads_float_of_short`).
-/

namespace AggQuery

open Lexeme

namespace Lexeme

section Digits

theorem digitsValue_append_zeros (digits : List Char) (count : ℕ) :
    digitsValue (digits ++ Layout.zeros count) = digitsValue digits * 10 ^ count := by
  induction count with
  | zero => simp [Layout.zeros]
  | succ count ih =>
      have hlast : digitsValue (digits ++ Layout.zeros (count + 1)) =
          10 * digitsValue (digits ++ Layout.zeros count) := by
        rw [Layout.zeros, List.replicate_succ', ← List.append_assoc, digitsValue,
          List.foldl_append]
        rfl
      rw [hlast, ih, pow_succ]
      ring

theorem digitsValue_zeros_append (count : ℕ) (digits : List Char) :
    digitsValue (Layout.zeros count ++ digits) = digitsValue digits := by
  induction count with
  | zero => rfl
  | succ count ih => exact ih

end Digits

end Lexeme

namespace Decimal

/-- Zeros at the end of the digits are powers of ten. -/
theorem value_mul_pow (digits n : ℕ) (exponent : ℤ) :
    value ⟨digits * 10 ^ n, exponent⟩ = value ⟨digits, exponent + n⟩ := by
  rw [value, value, zpow_add₀ (by norm_num), zpow_natCast]
  push_cast
  ring

/-- The decimal with the zeros that stand before and behind the point of a whole number. -/
def pointed (d : Decimal) : Decimal := ⟨d.digits * 10 ^ (d.exponent.toNat + 1), -1⟩

theorem value_pointed {d : Decimal} (h : 0 ≤ d.exponent) : d.pointed.value = d.value := by
  have hback : -1 + ((d.exponent.toNat + 1 : ℕ) : ℤ) = d.exponent := by omega
  rw [pointed, value_mul_pow, hback]

/-- The digits are below `2 ^ 53`, with the zeros of a whole number too, and the exponent is at
most twenty-two in size. -/
structure IsShort (d : Decimal) : Prop where
  digits_lt : d.digits * 10 ^ (d.exponent + 1).toNat < 2 ^ 53
  natAbs_exponent_le : d.exponent.natAbs ≤ 22

end Decimal

namespace Layout

section Decimal

variable {digits : ℕ} (hdigits : 0 < digits) (exponent : ℤ)

include hdigits

/-- The digits of a positive number start with another digit than zero. -/
theorem digitsOf_head : ∃ c more, digitsOf digits = c :: more ∧ c ≠ '0' := by
  cases htext : digitsOf digits with
  | nil => exact absurd htext Nat.toDigits_ne_nil
  | cons c more =>
      refine ⟨c, more, rfl, ?_⟩
      rintro rfl
      exact absurd (toDigits_leading_zero digits htext).1 hdigits.ne'

/-- The point stands behind all digits and a zero behind the point. -/
theorem exists_trailing :
    ∃ t : DecimalText, t.chars = digitsOf digits ++ zeros exponent.toNat ++ ['.', '0'] ∧
      t.decimal = Decimal.pointed ⟨digits, exponent⟩ := by
  obtain ⟨first, more, htext, hfirst⟩ := digitsOf_head hdigits
  have hvalue : digitsValue (digitsOf digits) = digits := digitsValue_toDigits digits
  have hzeros : digitsOf digits ++ zeros exponent.toNat ++ ['0'] =
      digitsOf digits ++ zeros (exponent.toNat + 1) := by
    rw [zeros, zeros, List.replicate_succ', List.append_assoc]
  refine ⟨{
    whole := digitsOf digits ++ zeros exponent.toNat
    places := ['0']
    power := none
    whole_isDigit :=
      List.forall_mem_append.mpr ⟨isDigit_of_mem_toDigits, isDigit_of_mem_zeros _⟩
    whole_ne := by simp [htext]
    whole_zero := by simp [htext, hfirst]
    places_isDigit := isDigit_of_mem_zeros 1
    isMarked := .inl (by simp) }, rfl, ?_⟩
  rw [DecimalText.decimal, Decimal.pointed]
  dsimp only
  rw [hzeros, digitsValue_append_zeros, hvalue]
  rfl

/-- The point stands between two digits. -/
theorem exists_between (hbelow : exponent < 0)
    (hbefore : 0 < (digitsOf digits).length + exponent) :
    ∃ t : DecimalText,
      t.chars = (digitsOf digits).take ((digitsOf digits).length + exponent).toNat ++
        '.' :: (digitsOf digits).drop ((digitsOf digits).length + exponent).toNat ∧
      t.decimal = ⟨digits, exponent⟩ := by
  have hall : ∀ c ∈ digitsOf digits, c.isDigit = true := isDigit_of_mem_toDigits
  have hvalue : digitsValue (digitsOf digits) = digits := digitsValue_toDigits digits
  obtain ⟨first, more, htext, hfirst⟩ := digitsOf_head hdigits
  -- Without a zero in front, the digits before the point are an integer part.
  obtain ⟨count, hcount⟩ : ∃ n, ((digitsOf digits).length + exponent).toNat = n + 1 :=
    Nat.exists_eq_add_one.mpr (by omega)
  have hwhole : (digitsOf digits).take (count + 1) = first :: more.take count := by
    rw [htext, List.take_succ_cons]
  have hlength : (-((digitsOf digits).drop (count + 1)).length : ℤ) = exponent := by
    rw [List.length_drop]
    omega
  have hplaces : (digitsOf digits).drop (count + 1) ≠ [] :=
    List.ne_nil_of_length_pos (by omega)
  rw [hcount]
  refine ⟨{
    whole := (digitsOf digits).take (count + 1)
    places := (digitsOf digits).drop (count + 1)
    power := none
    whole_isDigit := fun c hc => hall c (List.mem_of_mem_take hc)
    whole_ne := by rw [hwhole]; exact List.cons_ne_nil _ _
    whole_zero := by rw [hwhole]; simp [hfirst]
    places_isDigit := fun c hc => hall c (List.mem_of_mem_drop hc)
    isMarked := .inl hplaces }, ?_, ?_⟩
  · change (digitsOf digits).take (count + 1) ++
      (DecimalText.pointText ((digitsOf digits).drop (count + 1)) ++ []) = _
    rw [DecimalText.pointText_of_ne hplaces, List.append_nil]
  · change Decimal.mk (digitsValue ((digitsOf digits).take (count + 1) ++
      (digitsOf digits).drop (count + 1))) (0 - ((digitsOf digits).drop (count + 1)).length) = _
    rw [List.take_append_drop, hvalue, Int.zero_sub, hlength]

/-- The point stands before all digits. -/
theorem exists_leading (hbefore : (digitsOf digits).length + exponent ≤ 0) :
    ∃ t : DecimalText,
      t.chars = '0' :: '.' :: zeros ((digitsOf digits).length + exponent).natAbs ++
        digitsOf digits ∧
      t.decimal = ⟨digits, exponent⟩ := by
  obtain ⟨first, more, htext, hfirst⟩ := digitsOf_head hdigits
  rw [List.cons_append, List.cons_append]
  have hvalue : digitsValue (['0'] ++ (zeros ((digitsOf digits).length + exponent).natAbs ++
      digitsOf digits)) = digits :=
    (digitsValue_zeros_append _ _).trans (digitsValue_toDigits digits)
  have hlength : (-(zeros ((digitsOf digits).length + exponent).natAbs ++
      digitsOf digits).length : ℤ) = exponent := by
    rw [List.length_append, zeros, List.length_replicate]
    omega
  have hdigit : ∀ c ∈ zeros ((digitsOf digits).length + exponent).natAbs ++ digitsOf digits,
      c.isDigit = true :=
    List.forall_mem_append.mpr ⟨isDigit_of_mem_zeros _, isDigit_of_mem_toDigits⟩
  have hne : zeros ((digitsOf digits).length + exponent).natAbs ++ digitsOf digits ≠ [] := by
    simp [htext]
  generalize zeros ((digitsOf digits).length + exponent).natAbs ++ digitsOf digits = places at *
  refine ⟨⟨['0'], places, none, isDigit_of_mem_zeros 1, by simp, by simp, hdigit, .inl hne⟩,
    ?_, ?_⟩
  · change '0' :: (DecimalText.pointText places ++ []) = _
    rw [DecimalText.pointText_of_ne hne, List.append_nil]
  · change Decimal.mk (digitsValue (['0'] ++ places)) (0 - places.length) = _
    rw [hvalue, Int.zero_sub, hlength]

/-- Positional text denotes the decimal, that of a whole number with zeros around the point. -/
theorem exists_positional :
    ∃ t : DecimalText, t.chars = positional (digitsOf digits) exponent ∧
      t.decimal = if 0 ≤ exponent then Decimal.pointed ⟨digits, exponent⟩
        else ⟨digits, exponent⟩ := by
  rw [positional]
  split
  · exact exists_trailing hdigits exponent
  · next hexponent =>
      split
      · next hbefore => exact exists_between hdigits exponent (by omega) hbefore
      · next hbefore => exact exists_leading hdigits exponent (by omega)

/-- Scientific text denotes the decimal. -/
theorem exists_scientific :
    ∃ t : DecimalText, t.chars = document.scientific (digitsOf digits) exponent ∧
      t.decimal = ⟨digits, exponent⟩ := by
  have hall : ∀ c ∈ digitsOf digits, c.isDigit = true := isDigit_of_mem_toDigits
  have hvalue : digitsValue (digitsOf digits) = digits := digitsValue_toDigits digits
  obtain ⟨first, more, htext, hfirst⟩ := digitsOf_head hdigits
  rw [htext] at hall hvalue ⊢
  obtain ⟨hdigit, hmore⟩ := List.forall_mem_cons.mp hall
  have hexponent : ((first :: more).length + exponent - 1 : ℤ) - more.length = exponent := by
    rw [List.length_cons]
    omega
  have hpower (power : ℤ) : DecimalText.powerText (some power) =
      'e' :: (if power < 0 then ['-'] else document.exponentSign.toList) ++
        digitsOf power.natAbs := by
    rw [DecimalText.powerText]
    split <;> rfl
  refine ⟨⟨[first], more, some ((first :: more).length + exponent - 1), by simpa using hdigit,
    by simp, by simp [hfirst], hmore, .inr rfl⟩, ?_, ?_⟩
  · change [first] ++ (DecimalText.pointText more ++
      DecimalText.powerText (some ((first :: more).length + exponent - 1))) = _
    rw [hpower]
    cases more with
    | nil => rfl
    | cons second more => exact (List.append_assoc (first :: '.' :: second :: more) _ _).symm
  · change Decimal.mk (digitsValue (first :: more))
      (((first :: more).length + exponent - 1 : ℤ) - more.length) = _
    rw [hvalue, hexponent]

end Decimal

/-- The text denotes the shortest decimal of a number, that of a whole number perhaps with zeros
around the point. -/
def Denotes (t : DecimalText) (x : Binary64) : Prop :=
  t.decimal = x.shortest document.tie ∨
    (0 ≤ (x.shortest document.tie).exponent ∧ t.decimal = (x.shortest document.tie).pointed)

/-- The text of a finite magnitude is a decimal text. -/
theorem exists_decimalText {x : Binary64} (hfinite : x.isFinite = true) :
    ∃ t : DecimalText, t.chars = document.magnitude x ∧ Denotes t x := by
  by_cases hx : 0 < x.significand
  · have hrounds := Binary64.rounds_shortest hfinite hx document.tie
    have hdigits := Binary64.digits_pos_of_rounds hx hrounds
    rw [magnitude, if_neg (mt x.isZero_iff.mp hx.ne')]
    split
    · obtain ⟨t, hchars, hdecimal⟩ :=
        exists_positional hdigits (x.shortest document.tie).exponent
      refine ⟨t, hchars, ?_⟩
      rw [Denotes, hdecimal]
      split
      · next hexponent => exact .inr ⟨hexponent, rfl⟩
      · exact .inl rfl
    · obtain ⟨t, hchars, hdecimal⟩ :=
        exists_scientific hdigits (x.shortest document.tie).exponent
      exact ⟨t, hchars, .inl hdecimal⟩
  · have hzero : x.isZero = true := x.isZero_iff.mpr (by omega)
    rw [magnitude, if_pos hzero]
    refine ⟨⟨['0'], ['0'], none, isDigit_of_mem_zeros 1, by simp, by simp, isDigit_of_mem_zeros 1,
      .inl (by simp)⟩, rfl, ?_⟩
    rw [Denotes, Binary64.shortest, if_pos hzero]
    exact .inr ⟨le_rfl, rfl⟩

/-- The number is the word nearest to the decimal that its text denotes. -/
theorem Denotes.ofDecimal_eq {t : DecimalText} {x : Binary64} (h : Denotes t x)
    (hfinite : x.isFinite = true) :
    Binary64.ofDecimal x.isNegative t.decimal.digits t.decimal.exponent = x := by
  by_cases hx : 0 < x.significand
  · have hvalue : t.decimal.value = (x.shortest document.tie).value := by
      rcases h with heq | ⟨hexponent, heq⟩
      · rw [heq]
      · rw [heq, Decimal.value_pointed hexponent]
    have hrounds := Binary64.rounds_shortest hfinite hx document.tie
    rw [← hvalue] at hrounds
    exact Binary64.ofDecimal_of_rounds hfinite hx hrounds
  · have hzero : x.significand = 0 := by omega
    have hshortest : x.shortest document.tie = ⟨0, 0⟩ := by
      rw [Binary64.shortest, if_pos (x.isZero_iff.mpr hzero)]
    have hdigits : t.decimal.digits = 0 := by
      rcases h with heq | ⟨-, heq⟩
      · rw [heq, hshortest]
      · rw [heq, hshortest, Decimal.pointed, Nat.zero_mul]
    rw [hdigits, Binary64.ofDecimal, if_pos rfl]
    exact Binary64.zero_eq hzero

/-- A short decimal stays short in the text. -/
theorem Denotes.short {t : DecimalText} {x : Binary64} (h : Denotes t x)
    (hshort : (x.shortest document.tie).IsShort) :
    t.decimal.digits < 2 ^ 53 ∧ t.decimal.exponent.natAbs ≤ 22 := by
  have hdigits := hshort.digits_lt
  rcases h with heq | ⟨hexponent, heq⟩
  · rw [heq]
    exact ⟨(Nat.le_mul_of_pos_right _ (by positivity)).trans_lt hdigits,
      hshort.natAbs_exponent_le⟩
  · have hzeros : ((x.shortest document.tie).exponent + 1).toNat =
        (x.shortest document.tie).exponent.toNat + 1 := by omega
    rw [hzeros] at hdigits
    rw [heq]
    exact ⟨hdigits, (by decide : (-1 : ℤ).natAbs ≤ 22)⟩

end Layout

namespace Lexeme

section Float

variable {x : Binary64} (hfinite : x.isFinite = true)

include hfinite

/-- A finite floating-point number is written as its sign and its magnitude. -/
theorem numberText_float :
    Document.numberText (.float x) =
      (if x.isNegative then ['-'] else []) ++ Layout.document.magnitude x := by
  have hnan : ¬x.isNaN = true := by simp [Binary64.isNaN_of_isFinite hfinite]
  rw [Document.numberText, Layout.write, if_neg hnan, if_neg (by simp [hfinite]),
    String.toList_ofList]

/-- The text of a finite magnitude starts with a digit. -/
theorem exists_magnitude_head :
    ∃ c more, Layout.document.magnitude x = c :: more ∧ c.isDigit = true := by
  obtain ⟨t, hchars, -⟩ := Layout.exists_decimalText hfinite
  obtain ⟨c, more, hwhole⟩ := List.exists_cons_of_ne_nil t.whole_ne
  refine ⟨c, more ++ t.tail, ?_, t.whole_isDigit c (hwhole ▸ List.mem_cons_self)⟩
  rw [← hchars, DecimalText.chars, hwhole, List.cons_append]

/-- The sign of a number is read before its magnitude. -/
theorem readNumber_floatText (rest : List Char) :
    readNumber (Document.numberText (.float x) ++ rest) =
      unsigned x.isNegative (Layout.document.magnitude x ++ rest) := by
  rw [numberText_float hfinite]
  obtain ⟨c, more, htext, hc⟩ := exists_magnitude_head hfinite
  cases hsign : x.isNegative with
  | true => rfl
  | false =>
      rw [if_neg Bool.false_ne_true, List.nil_append, htext]
      exact readNumber_of_digit hc _

/-- A number with a short decimal reads back from its text. -/
theorem numberReads_float_of_short (hshort : (x.shortest Layout.document.tie).IsShort) :
    NumberReads (.float x) := by
  intro rest hrest
  obtain ⟨t, hchars, hdenotes⟩ := Layout.exists_decimalText hfinite
  obtain ⟨hdigits, hexponent⟩ := hdenotes.short hshort
  rw [readNumber_floatText hfinite, ← hchars,
    t.unsigned_chars_of_short hdigits hexponent _ hrest, hdenotes.ofDecimal_eq hfinite]

/-- Whether a number is read back does not depend on what stands behind its text. -/
theorem numberReads_float_iff :
    NumberReads (.float x) ↔
      readNumber (Document.numberText (.float x)) = .ok (.float x, []) := by
  have hnil := readNumber_floatText hfinite []
  obtain ⟨t, hchars, -⟩ := Layout.exists_decimalText hfinite
  rw [← hchars, t.unsigned_chars _ (by simp [EndsNumber]), List.append_nil] at hnil
  constructor
  · intro h
    simpa using h [] (by simp [EndsNumber])
  · intro h rest hrest
    rw [hnil] at h
    rw [readNumber_floatText hfinite, ← hchars, t.unsigned_chars _ hrest]
    unfold decimal at h ⊢
    split at h
    · obtain ⟨hx, -⟩ := Prod.mk.inj (Except.ok.inj h)
      rw [hx]
    · cases h

end Float

-- Seventeen digits are too many for two steps that both round: the neighbour is read.
example : readNumber "121.48791951161945".toList =
    .ok (.float (.ofDecimal false 12148791951161944 (-14)), []) := by decide +kernel

/-- The text of a number that fits a 64-bit word starts with a sign or a digit. -/
theorem exists_numberText_head {n : Number} (h : n.Fits) :
    ∃ c more, Document.numberText n = c :: more ∧ (c = '-' ∨ c.isDigit = true) := by
  cases n with
  | integer n => exact (numberReads_integer h.1 h.2).head
  | float x =>
      have hfinite : x.isFinite = true := h
      obtain ⟨c, more, htext, hc⟩ := exists_magnitude_head hfinite
      rw [numberText_float hfinite, htext]
      cases x.isNegative with
      | true => exact ⟨'-', _, rfl, .inl rfl⟩
      | false => exact ⟨c, more, rfl, .inr hc⟩

end Lexeme

end AggQuery
