import AggQuery.Proofs.Document.NumberText
import AggQuery.Proofs.Number.Steps

/-!
# Decimal text

A decimal text has digits with a point, an exponent or both. In a document it is read as the
digits that are kept and the exponent say (`DecimalText.unsigned_chars`), which is the nearest
word if the digits and the exponent are short (`DecimalText.unsigned_chars_of_short`).
-/

namespace AggQuery

open Lexeme

/-- Digits without a needless zero in front, with a point, an exponent or both. -/
structure DecimalText where
  whole : List Char
  places : List Char
  /-- The exponent, if there is a mark for it. -/
  power : Option ℤ
  whole_isDigit : ∀ c ∈ whole, c.isDigit = true
  whole_ne : whole ≠ []
  whole_zero : ∀ more, whole = '0' :: more → more = []
  places_isDigit : ∀ c ∈ places, c.isDigit = true
  isMarked : places ≠ [] ∨ power.isSome = true

namespace DecimalText

/-- The text of the digits behind the point. -/
def pointText : List Char → List Char
  | [] => []
  | c :: more => '.' :: c :: more

theorem pointText_of_ne {places : List Char} (h : places ≠ []) :
    pointText places = '.' :: places := by
  cases places with
  | nil => exact absurd rfl h
  | cons c more => rfl

/-- The text of an exponent. -/
def powerText : Option ℤ → List Char
  | none => []
  | some e => 'e' :: (if e < 0 then '-' else '+') :: Nat.toDigits 10 e.natAbs

/-- What stands behind the digits of the whole part. -/
def tail (t : DecimalText) : List Char := pointText t.places ++ powerText t.power

def chars (t : DecimalText) : List Char := t.whole ++ t.tail

/-- The decimal that a text denotes. -/
def decimal (t : DecimalText) : Decimal :=
  ⟨digitsValue (t.whole ++ t.places), t.power.getD 0 - t.places.length⟩

/-- The text goes on with a point or a mark behind the whole part. -/
theorem exists_tail (t : DecimalText) :
    ∃ c more, t.tail = c :: more ∧ (c = '.' ∨ c = 'e') := by
  rw [tail]
  cases hplaces : t.places with
  | cons c more => exact ⟨'.', _, rfl, .inl rfl⟩
  | nil =>
      obtain ⟨e, hpower⟩ := Option.isSome_iff_exists.mp (t.isMarked.resolve_left (by simp [hplaces]))
      rw [hpower]
      exact ⟨'e', _, rfl, .inr rfl⟩

theorem endsDigits_tail (t : DecimalText) (rest : List Char) : EndsDigits (t.tail ++ rest) := by
  obtain ⟨c, more, htail, hc⟩ := t.exists_tail
  rw [htail]
  rintro d hd
  obtain rfl := Option.some.inj hd
  rcases hc with rfl | rfl <;> rfl

theorem endsDigits_powerText (power : Option ℤ) {rest : List Char} (hrest : EndsDigits rest) :
    EndsDigits (powerText power ++ rest) := by
  cases power with
  | none => exact hrest
  | some e =>
      rintro c hc
      obtain rfl := Option.some.inj hc
      rfl

section Reading

variable (negative : Bool) {rest : List Char} (hrest : EndsNumber rest)

include hrest

theorem exponentPart_power (digits : ℕ) (exponent e : ℤ) :
    exponentPart negative digits exponent
        ((if e < 0 then '-' else '+') :: (Nat.toDigits 10 e.natAbs ++ rest)) =
      Lexeme.decimal negative digits (exponent + e) rest := by
  have hleading := leadingDigits_append (isDigit_of_mem_toDigits (n := e.natAbs)) hrest.endsDigits
  have hafter := afterDigits_append (isDigit_of_mem_toDigits (n := e.natAbs)) hrest.endsDigits
  have hvalue := digitsValue_toDigits e.natAbs
  cases hn : Nat.toDigits 10 e.natAbs with
  | nil => exact absurd hn Nat.toDigits_ne_nil
  | cons c more =>
      have hc : c.isDigit = true := isDigit_of_mem_toDigits c (hn ▸ List.mem_cons_self)
      rw [hn] at hleading hafter hvalue
      by_cases hneg : e < 0
      · have hexponent : exponent - e.natAbs = exponent + e := by omega
        rw [if_pos hneg, exponentPart, List.cons_append]
        dsimp only
        rw [if_pos hc, ← List.cons_append, hleading, hafter, hvalue, if_pos rfl, hexponent]
      · have hexponent : exponent + e.natAbs = exponent + e := by omega
        rw [if_neg hneg, exponentPart, List.cons_append]
        dsimp only
        rw [if_pos hc, ← List.cons_append, hleading, hafter, hvalue, if_neg Bool.false_ne_true,
          hexponent]

/-- Digits behind a point, with or without an exponent behind them. -/
theorem afterInteger_point (whole : List Char) {places : List Char} (power : Option ℤ)
    (hplaces : ∀ c ∈ places, c.isDigit = true) (hne : places ≠ []) :
    afterInteger negative whole ('.' :: (places ++ (powerText power ++ rest))) =
      Lexeme.decimal negative (kept whole places).digits
        ((kept whole places).exponent + power.getD 0) rest := by
  have hends := endsDigits_powerText power hrest.endsDigits
  have hleading := leadingDigits_append hplaces hends
  have hafter := afterDigits_append hplaces hends
  rw [afterInteger, hleading, hafter]
  cases places with
  | nil => exact absurd rfl hne
  | cons c more =>
      cases power with
      | some e => exact exponentPart_power negative hrest _ _ e
      | none =>
          rw [Option.getD_none, Int.add_zero, powerText, List.nil_append]
          split
          · next heq => cases heq
          · next heq => cases heq
          · exact absurd rfl (hrest 'e' rfl).2.2.1
          · exact absurd rfl (hrest 'E' rfl).2.2.2
          · rfl

/-- A decimal text is read as its kept digits and its exponent say. -/
theorem unsigned_chars (t : DecimalText) :
    unsigned negative (t.chars ++ rest) =
      Lexeme.decimal negative (kept t.whole t.places).digits
        ((kept t.whole t.places).exponent + t.power.getD 0) rest := by
  rw [chars, List.append_assoc,
    unsigned_append t.whole_isDigit (t.endsDigits_tail rest) t.whole_ne t.whole_zero, tail,
    List.append_assoc]
  have hpoint := afterInteger_point negative hrest t.whole t.power t.places_isDigit
  have hmarked := t.isMarked
  generalize t.places = places at *
  cases places with
  | cons c more => exact hpoint (by simp)
  | nil =>
      obtain ⟨e, hpower⟩ := Option.isSome_iff_exists.mp (hmarked.resolve_left (by simp))
      rw [hpower]
      exact exponentPart_power negative hrest _ _ e

end Reading

section Kept

theorem le_foldl_digits (digits : List Char) (n : ℕ) :
    n ≤ digits.foldl (fun n c => 10 * n + (c.toNat - 48)) n := by
  induction digits generalizing n with
  | nil => exact le_rfl
  | cons c digits ih =>
      rw [List.foldl_cons]
      exact le_trans (by omega) (ih (10 * n + (c.toNat - 48)))

theorem significand_of_lt {digits : List Char} {n : ℕ}
    (h : digits.foldl (fun n c => 10 * n + (c.toNat - 48)) n < UInt64.size) :
    Lexeme.significand n digits = (digits.foldl (fun n c => 10 * n + (c.toNat - 48)) n, 0) := by
  induction digits generalizing n with
  | nil => rfl
  | cons c digits ih =>
      have hnext := (le_foldl_digits digits _).trans_lt h
      rw [Lexeme.significand, if_pos hnext]
      exact ih h

/-- Digits that fit a 64-bit word are all kept. -/
theorem kept_of_lt {whole places : List Char} (h : digitsValue (whole ++ places) < UInt64.size) :
    kept whole places = ⟨digitsValue (whole ++ places), -places.length⟩ := by
  rw [digitsValue, List.foldl_append] at h
  have hwhole := significand_of_lt ((le_foldl_digits places _).trans_lt h)
  have hplaces := significand_of_lt h
  rw [kept, digitsValue, List.foldl_append, hwhole]
  dsimp only
  rw [hplaces]
  simp

/-- A decimal text with short digits and a short exponent is read as the nearest word. -/
theorem unsigned_chars_of_short {t : DecimalText} (hdigits : t.decimal.digits < 2 ^ 53)
    (hexponent : t.decimal.exponent.natAbs ≤ 22) (negative : Bool) {rest : List Char}
    (hrest : EndsNumber rest) :
    unsigned negative (t.chars ++ rest) =
      .ok (.float (.ofDecimal negative t.decimal.digits t.decimal.exponent), rest) := by
  have hkept := kept_of_lt (hdigits.trans (by decide : 2 ^ 53 < UInt64.size))
  have hsum : -(t.places.length : ℤ) + t.power.getD 0 = t.decimal.exponent := by
    rw [decimal]
    dsimp only
    omega
  rw [unsigned_chars negative hrest, hkept, hsum, Lexeme.decimal]
  have hsteps := Binary64.ofSteps?_of_short hdigits hexponent
  rw [decimal] at hsteps ⊢
  rw [hsteps]
  dsimp only
  rw [Binary64.withSign_ofDecimal]

end Kept

end DecimalText

end AggQuery
