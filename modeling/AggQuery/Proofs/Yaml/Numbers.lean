import AggQuery.Proofs.Document.FloatText
import AggQuery.Yaml.Document
import Mathlib.Data.List.TakeWhile

/-!
# Numbers as plain scalars

The text of a number in a document is a plain scalar that denotes the same number
(`plainDocument_numberText`). Integers are written without leading zeros, and a floating-point
number always with a point or an exponent, so none of them is taken for the other or for a
string.
-/

namespace AggQuery

namespace Yaml

open Lexeme

section Decimal

variable {digits : List Char} {c : Char}

theorem hexValue?_of_isDigit (h : c.isDigit = true) :
    hexValue? c = some (c.toNat - 48) ∧ c.toNat - 48 < 10 := by
  have hrange : '0' ≤ c ∧ c ≤ '9' := by
    simpa [Char.isDigit, Char.le_def] using h
  refine ⟨by rw [hexValue?, if_pos hrange], ?_⟩
  have hle : c.toNat ≤ 57 := hrange.2
  omega

theorem hexValue?_of_not_isDigit (h : c.isDigit = false) {value : Nat}
    (hvalue : hexValue? c = some value) : ¬value < 10 := by
  have hrange : ¬('0' ≤ c ∧ c ≤ '9') := by
    simpa [Char.isDigit, Char.le_def] using h
  rw [hexValue?, if_neg hrange] at hvalue
  split at hvalue
  · next hsmall =>
      obtain rfl := Option.some.inj hvalue
      have hle : 97 ≤ c.toNat := hsmall.1
      omega
  · split at hvalue
    · next hcapital =>
        obtain rfl := Option.some.inj hvalue
        have hle : 65 ≤ c.toNat := hcapital.1
        omega
    · cases hvalue

/-- One more digit of a number in base ten. -/
def digitStep (acc : Option Nat) (c : Char) : Option Nat :=
  match acc, hexValue? c with
  | some value, some digit => if digit < 10 then some (10 * value + digit) else none
  | _, _ => none

theorem digitStep_of_isDigit (h : c.isDigit = true) (value : Nat) :
    digitStep (some value) c = some (10 * value + (c.toNat - 48)) := by
  obtain ⟨hvalue, hlt⟩ := hexValue?_of_isDigit h
  simp [digitStep, hvalue, hlt]

theorem digitStep_of_not_isDigit (h : c.isDigit = false) (acc : Option Nat) :
    digitStep acc c = none := by
  cases acc with
  | none => rfl
  | some value =>
      cases hvalue : hexValue? c with
      | none => simp [digitStep, hvalue]
      | some digit => simp [digitStep, hvalue, hexValue?_of_not_isDigit h hvalue]

theorem numberIn_ten_eq (hne : digits ≠ []) :
    numberIn 10 digits = digits.foldl digitStep (some 0) := by
  rw [numberIn, if_neg (by simp [hne])]
  rfl

/-- Decimal digits denote their value. -/
theorem numberIn_ten (hdigits : ∀ c ∈ digits, c.isDigit = true) (hne : digits ≠ []) :
    numberIn 10 digits = some (digitsValue digits) := by
  have hfold (value : Nat) : digits.foldl digitStep (some value) =
      some (digits.foldl (fun n c => 10 * n + (c.toNat - 48)) value) := by
    clear hne
    induction digits generalizing value with
    | nil => rfl
    | cons c digits ih =>
        obtain ⟨hc, hdigits⟩ := List.forall_mem_cons.mp hdigits
        rw [List.foldl_cons, List.foldl_cons, digitStep_of_isDigit hc, ih hdigits]
  rw [numberIn_ten_eq hne, hfold 0]
  rfl

/-- A text with another character is no decimal number. -/
theorem numberIn_ten_eq_none (hmem : c ∈ digits) (hc : c.isDigit = false) :
    numberIn 10 digits = none := by
  have hnone (digits : List Char) : digits.foldl digitStep none = none := by
    induction digits with
    | nil => rfl
    | cons c digits ih => exact ih
  obtain ⟨before, after, rfl⟩ := List.append_of_mem hmem
  rw [numberIn_ten_eq (by simp), List.foldl_append, List.foldl_cons,
    digitStep_of_not_isDigit hc, hnone]

/-- Numbers have no mark of another base. -/
theorem magnitude?_of_isNumberChar (htext : ∀ c ∈ digits, isNumberChar c = true)
    (leadingZero : Bool) :
    magnitude? leadingZero digits = if leadingZero then none else numberIn 10 digits := by
  unfold magnitude?
  split
  · exact absurd (htext 'x' (by simp)) (by decide)
  · exact absurd (htext 'o' (by simp)) (by decide)
  · exact absurd (htext 'b' (by simp)) (by decide)
  · rfl

end Decimal

section Signs

variable {first : Char} {more : List Char}

/-- A number is neither null nor a truth value. -/
theorem not_word_of_numberStart (h : first = '-' ∨ first.isDigit = true) :
    isNull (first :: more) = false ∧ booleanOf (first :: more) = none := by
  have hne (other : Char) (hsign : other ≠ '-') (hdigit : other.isDigit = false) :
      first ≠ other := ne_of_numberStart h hsign hdigit
  constructor
  · simp [isNull, hne]
  · simp [booleanOf, hne]

/-- A sign in front of digits does not matter for leading zeros. -/
theorem hasLeadingZero_eq_false (h : first.isDigit = true)
    (hmore : first = '0' → more.isEmpty = true ∨ more.all Char.isDigit = false) :
    hasLeadingZero (first :: more) = false ∧ hasLeadingZero ('-' :: first :: more) = false := by
  have hne (other : Char) (hother : other.isDigit = false) : first ≠ other := by
    rintro rfl
    simp [h] at hother
  have hminus := hne '-' rfl
  have hplus := hne '+' rfl
  by_cases hzero : first = '0'
  · obtain hempty | hother := hmore hzero
    · simp [hasLeadingZero, hzero, hempty]
    · simp [hasLeadingZero, hzero, hother]
  · simp [hasLeadingZero, hzero, hminus, hplus]

end Signs

section Integers

theorem magnitude?_toDigits (n : Nat) : magnitude? false (Nat.toDigits 10 n) = some n := by
  rw [magnitude?_of_isNumberChar isNumberChar_of_mem_toDigits, if_neg Bool.false_ne_true,
    numberIn_ten isDigit_of_mem_toDigits Nat.toDigits_ne_nil, digitsValue_toDigits]

theorem toDigits_head (n : Nat) : ∃ first more, Nat.toDigits 10 n = first :: more ∧
    first.isDigit = true ∧ (first = '0' → more = []) := by
  obtain ⟨first, more, htext⟩ := List.exists_cons_of_ne_nil (@Nat.toDigits_ne_nil n 10)
  refine ⟨first, more, htext, isDigit_of_mem_toDigits first (htext ▸ List.mem_cons_self), ?_⟩
  rintro rfl
  exact (toDigits_leading_zero n htext).2

/-- The text of an integer of 64 bits denotes it. -/
theorem integerOf_integerText {n : Int} (hleast : -(1 <<< 63) ≤ n)
    (hgreatest : n < UInt64.size) : integerOf (integerText n) = .integer n := by
  obtain ⟨first, more, htext, hdigit, hzero⟩ := toDigits_head n.natAbs
  obtain ⟨hplain, hsigned⟩ := hasLeadingZero_eq_false hdigit fun h =>
    .inl (List.isEmpty_iff.mpr (hzero h))
  have hmagnitude := magnitude?_toDigits n.natAbs
  rw [htext] at hmagnitude
  by_cases hneg : n < 0
  · have hsmall : n.natAbs ≤ 1 <<< 63 := by
      have hbound : (1 <<< 63 : Int) = 9223372036854775808 := by decide
      have hbound' : (1 <<< 63 : Nat) = 9223372036854775808 := by decide
      omega
    have hback : -(n.natAbs : Int) = n := by omega
    rw [integerText, if_pos hneg, htext, integerOf]
    simp only [hsigned, hmagnitude, hsmall, if_true, hback]
  · have hminus : first ≠ '-' := by
      rintro rfl
      cases hdigit
    have hplus : first ≠ '+' := by
      rintro rfl
      cases hdigit
    have hsmall : n.natAbs < UInt64.size := by omega
    have hback : (n.natAbs : Int) = n := by omega
    rw [integerText, if_neg hneg, htext, integerOf.eq_def]
    simp [hplain, hmagnitude, hsmall, hback, hminus, hplus]

theorem plainDocument_integerText {n : Int} (hleast : -(1 <<< 63) ≤ n)
    (hgreatest : n < UInt64.size) : plainDocument (integerText n) = some (.ofInt n) := by
  have hinteger := integerOf_integerText hleast hgreatest
  obtain ⟨first, more, htext, hstart⟩ := (numberReads_integer hleast hgreatest).head
  have htext' : integerText n = first :: more := htext
  rw [htext'] at hinteger ⊢
  obtain ⟨hnull, hboolean⟩ := @not_word_of_numberStart first more hstart
  simp [plainDocument, hnull, hboolean, hinteger]

end Integers

section Decimals

/-- Whether an exponent has a minus sign, and the exponent without its sign. -/
def exponentSign (text : List Char) : Bool × List Char :=
  match text with
  | '-' :: rest => (true, rest)
  | '+' :: rest => (false, rest)
  | _ => (false, text)

/-- The number behind whole digits and places, where what follows is given. -/
def withExponent (negative : Bool) (whole places rest : List Char) : Option Binary64 :=
  match rest with
  | [] => some (Binary64.ofDecimal negative (digitsValue (whole ++ places)) (0 - places.length))
  | c :: rest =>
    if c = 'e' ∨ c = 'E' then
      if (exponentSign rest).2.isEmpty || !(exponentSign rest).2.all Char.isDigit then none
      else
        some (Binary64.ofDecimal negative (digitsValue (whole ++ places))
          ((if (exponentSign rest).1 then -(digitsValue (exponentSign rest).2 : Int)
            else digitsValue (exponentSign rest).2) - places.length))
    else none

theorem withExponent_powerText (negative : Bool) (whole places : List Char) (power : Option Int) :
    withExponent negative whole places (DecimalText.powerText power) =
      some (.ofDecimal negative (digitsValue (whole ++ places))
        (power.getD 0 - places.length)) := by
  cases power with
  | none => rfl
  | some e =>
      have hempty : (Nat.toDigits 10 e.natAbs).isEmpty = false := by
        simp [Nat.toDigits_ne_nil]
      have hall : (Nat.toDigits 10 e.natAbs).all Char.isDigit = true :=
        List.all_eq_true.mpr isDigit_of_mem_toDigits
      have hvalue := digitsValue_toDigits e.natAbs
      have hsign : exponentSign ((if e < 0 then '-' else '+') :: Nat.toDigits 10 e.natAbs) =
          (decide (e < 0), Nat.toDigits 10 e.natAbs) := by
        by_cases h : e < 0 <;> simp [h, exponentSign]
      have hback : (if decide (e < 0) then -(e.natAbs : Int) else e.natAbs) = e := by
        by_cases h : e < 0
        · rw [if_pos (decide_eq_true h)]
          omega
        · rw [if_neg (by simpa using h)]
          omega
      rw [DecimalText.powerText, withExponent, if_pos (.inl rfl), hsign]
      dsimp only
      rw [hempty, hall, hvalue, hback]
      rfl

/-- A decimal text is read as the word nearest to the decimal that it denotes. -/
theorem decimalOf_chars (t : DecimalText) (negative : Bool) :
    decimalOf negative t.chars =
      some (.ofDecimal negative t.decimal.digits t.decimal.exponent) := by
  have hends := t.endsDigits_tail []
  rw [List.append_nil] at hends
  have hleading : leadingDigits t.chars = t.whole := leadingDigits_append t.whole_isDigit hends
  have hafter : afterDigits t.chars = t.tail := afterDigits_append t.whole_isDigit hends
  have hempty : t.whole.isEmpty = false := by simp [t.whole_ne]
  have hpower := withExponent_powerText negative t.whole t.places t.power
  rw [decimalOf, hleading, hafter, DecimalText.tail]
  simp only [hempty, Bool.false_and, Bool.false_eq_true, if_false]
  refine Eq.trans ?_ hpower
  cases hplaces : t.places with
  | nil =>
      obtain ⟨e, he⟩ := Option.isSome_iff_exists.mp (t.isMarked.resolve_left (by simp [hplaces]))
      rw [he]
      rfl
  | cons c more =>
      have hdigits := t.places_isDigit
      rw [hplaces] at hdigits
      have hnil : EndsDigits [] := by simp [EndsDigits]
      have hends := DecimalText.endsDigits_powerText t.power hnil
      rw [List.append_nil] at hends
      have hleading := leadingDigits_append hdigits hends
      have hafter := afterDigits_append hdigits hends
      rw [DecimalText.pointText]
      change withExponent negative t.whole
        (leadingDigits (c :: more ++ DecimalText.powerText t.power))
        (afterDigits (c :: more ++ DecimalText.powerText t.power)) = _
      rw [hleading, hafter]

end Decimals

/-- The text of a magnitude does not consist of digits alone. -/
theorem exists_mem_magnitude (x : Binary64) :
    ∃ c ∈ Layout.document.magnitude x, c.isDigit = false := by
  unfold Layout.magnitude
  dsimp only
  split
  · exact ⟨'.', by simp, rfl⟩
  split
  · refine ⟨'.', ?_, rfl⟩
    unfold Layout.positional
    dsimp only
    split
    · simp
    split <;> simp
  · exact ⟨'e', by simp [Layout.scientific], rfl⟩

/-- A number with a point or an exponent is no integer. -/
theorem magnitude?_magnitude (x : Binary64) (leadingZero : Bool) :
    magnitude? leadingZero (Layout.document.magnitude x) = none := by
  obtain ⟨c, hmem, hc⟩ := exists_mem_magnitude x
  rw [magnitude?_of_isNumberChar (isNumberChar_of_mem_magnitude x), numberIn_ten_eq_none hmem hc,
    ite_self]

section FloatText

variable {x : Binary64} (hfinite : x.isFinite = true)

include hfinite

theorem decimalOf_magnitude :
    decimalOf x.isNegative (Layout.document.magnitude x) = some x := by
  obtain ⟨t, hchars, hdenotes⟩ := Layout.exists_decimalText hfinite
  rw [← hchars, decimalOf_chars, hdenotes.ofDecimal_eq hfinite]

/-- The text of a magnitude starts with a digit; one with a leading zero does not go on with
digits alone. -/
theorem magnitude_head : ∃ first more, Layout.document.magnitude x = first :: more ∧
    first.isDigit = true ∧ (first = '0' → more.all Char.isDigit = false) := by
  obtain ⟨first, more, htext, hfirst⟩ := exists_magnitude_head hfinite
  obtain ⟨c, hmem, hc⟩ := exists_mem_magnitude x
  refine ⟨first, more, htext, hfirst, ?_⟩
  rintro rfl
  rw [htext] at hmem
  rcases List.mem_cons.mp hmem with rfl | hmore
  · cases hc
  · exact List.all_eq_false.mpr ⟨c, hmore, by simp [hc]⟩

theorem floatOf_numberText :
    floatOf (Document.numberText (.float x)) = some (some x) := by
  have hdecimal := decimalOf_magnitude hfinite
  obtain ⟨first, more, htext, hdigit, -⟩ := magnitude_head hfinite
  rw [numberText_float hfinite, htext]
  rw [htext] at hdecimal
  have hne (other : Char) (hother : other.isDigit = false) : first ≠ other := by
    rintro rfl
    simp [hdigit] at hother
  have hpoint := hne '.' rfl
  have hminus := hne '-' rfl
  have hplus := hne '+' rfl
  cases hsign : x.isNegative with
  | true =>
      rw [hsign] at hdecimal
      simp [floatOf, hdecimal, hpoint, hfinite]
  | false =>
      rw [hsign] at hdecimal
      simp [floatOf, hdecimal, hpoint, hminus, hplus, hfinite]

/-- The text of a finite floating-point number denotes it. -/
theorem plainDocument_floatText :
    plainDocument (Document.numberText (.float x)) = some (.ofFloat x) := by
  have hfloat := floatOf_numberText hfinite
  have hmagnitude := magnitude?_magnitude x
  obtain ⟨first, more, htext, hdigit, hzero⟩ := magnitude_head hfinite
  obtain ⟨hplain, hsigned⟩ := hasLeadingZero_eq_false hdigit fun h => .inr (hzero h)
  rw [numberText_float hfinite, htext] at hfloat ⊢
  rw [htext] at hmagnitude
  cases hsign : x.isNegative with
  | true =>
      obtain ⟨hnull, hboolean⟩ := @not_word_of_numberStart '-' (first :: more) (.inl rfl)
      have hinteger : integerOf ('-' :: first :: more) = .notInteger := by
        simp [integerOf, hmagnitude]
      simp only [hsign, if_true, List.cons_append, List.nil_append] at hfloat ⊢
      simp [plainDocument, hnull, hboolean, hinteger, hsigned, hfloat, floatDocument]
  | false =>
      obtain ⟨hnull, hboolean⟩ := @not_word_of_numberStart first more (.inr hdigit)
      have hminus : first ≠ '-' := by
        rintro rfl
        cases hdigit
      have hplus : first ≠ '+' := by
        rintro rfl
        cases hdigit
      have hinteger : integerOf (first :: more) = .notInteger := by
        simp [integerOf, hmagnitude, hminus, hplus]
      simp only [hsign, Bool.false_eq_true, if_false, List.nil_append] at hfloat ⊢
      simp [plainDocument, hnull, hboolean, hinteger, hplain, hfloat, floatDocument]

end FloatText

/-- The text of a number that fits a 64-bit word denotes it. -/
theorem plainDocument_numberText {n : Number} (h : n.Fits) :
    plainDocument (Document.numberText n) = some (.number n) := by
  cases n with
  | integer n => exact plainDocument_integerText h.1 h.2
  | float x => exact plainDocument_floatText h

/-- The text of a number that fits a 64-bit word has the characters of numbers. -/
theorem numberText_chars {n : Number} (h : n.Fits) :
    ∀ c ∈ Document.numberText n, isNumberChar c = true := by
  cases n with
  | integer n => exact isNumberChar_of_mem_integerText n
  | float x =>
      rw [numberText_float h]
      refine List.forall_mem_append.mpr ⟨?_, isNumberChar_of_mem_magnitude x⟩
      split
      · exact List.all_eq_true.mp rfl
      · simp

end Yaml

end AggQuery
