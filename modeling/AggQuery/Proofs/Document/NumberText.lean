import AggQuery.Document.Lexeme
import AggQuery.Document.Writer

/-!
# Numbers read back

The text of a number is read back as that number, and the reader stops right behind it,
unless the text that follows continues the number. What can be read can be skipped. Numbers have
few characters (`isNumberChar`), so no other lexeme is taken for one.
-/

namespace AggQuery

namespace Lexeme

/-- A text that does not continue decimal digits before it. -/
def EndsDigits (rest : List Char) : Prop :=
  ∀ c, rest.head? = some c → c.isDigit = false

/-- A text that does not continue a number before it. -/
def EndsNumber (rest : List Char) : Prop :=
  ∀ c, rest.head? = some c → c.isDigit = false ∧ c ≠ '.' ∧ c ≠ 'e' ∧ c ≠ 'E'

theorem EndsNumber.endsDigits {rest : List Char} (h : EndsNumber rest) : EndsDigits rest :=
  fun c hc => (h c hc).1

/-- The text of a number reads back unless it is continued. -/
def NumberReads (n : Number) : Prop :=
  ∀ rest, EndsNumber rest → readNumber (Document.numberText n ++ rest) = .ok (n, rest)

theorem NumberReads.head {n : Number} (h : NumberReads n) :
    ∃ c tail, Document.numberText n = c :: tail ∧ (c = '-' ∨ c.isDigit = true) := by
  have hread := h [] (by simp [EndsNumber])
  rw [List.append_nil] at hread
  cases htext : Document.numberText n with
  | nil =>
      rw [htext] at hread
      cases hread
  | cons c tail =>
      refine ⟨c, tail, rfl, ?_⟩
      rw [htext] at hread
      unfold readNumber at hread
      split at hread
      · next heq => exact Or.inl (List.cons.inj heq).1
      · by_cases hc : c.isDigit = true
        · exact Or.inr hc
        · rw [unsigned, if_pos (by simp [hc])] at hread
          cases hread

/-- The character that a number starts with is none but a sign or a digit. -/
theorem ne_of_numberStart {c : Char} (h : c = '-' ∨ c.isDigit = true) {other : Char}
    (hsign : other ≠ '-') (hdigit : other.isDigit = false) : c ≠ other := by
  rintro rfl
  rcases h with rfl | h
  · exact hsign rfl
  · rw [hdigit] at h
    cases h

theorem isBlank_of_numberStart {c : Char} (h : c = '-' ∨ c.isDigit = true) :
    isBlank c = false := by
  have hspace : c ≠ ' ' := ne_of_numberStart h (by decide) (by decide)
  have hnewline : c ≠ '\n' := ne_of_numberStart h (by decide) (by decide)
  have htab : c ≠ '\t' := ne_of_numberStart h (by decide) (by decide)
  have hreturn : c ≠ '\r' := ne_of_numberStart h (by decide) (by decide)
  simp [isBlank, hspace, hnewline, htab, hreturn]

section Digits

variable {digits rest : List Char} (hdigits : ∀ c ∈ digits, c.isDigit = true)
  (hrest : EndsDigits rest)

include hdigits hrest

theorem leadingDigits_append : leadingDigits (digits ++ rest) = digits := by
  rw [leadingDigits, List.takeWhile_append_of_pos hdigits]
  cases rest with
  | nil => simp
  | cons c rest => simp [hrest c rfl]

theorem afterDigits_append : afterDigits (digits ++ rest) = rest := by
  rw [afterDigits, List.dropWhile_append_of_pos hdigits]
  cases rest with
  | nil => simp
  | cons c rest => simp [hrest c rfl]

/-- Digits without a leading zero are the integer part of a number. -/
theorem unsigned_append (hne : digits ≠ []) (hzero : ∀ more, digits = '0' :: more → more = [])
    (negative : Bool) :
    unsigned negative (digits ++ rest) = afterInteger negative digits rest := by
  have hleading := leadingDigits_append hdigits hrest
  have hafter := afterDigits_append hdigits hrest
  cases digits with
  | nil => exact absurd rfl hne
  | cons c more =>
      obtain ⟨hc, hmore⟩ := List.forall_mem_cons.mp hdigits
      have hshort : ¬(c = '0' ∧ (leadingDigits (more ++ rest)).isEmpty = false) := by
        rintro ⟨rfl, hlong⟩
        obtain rfl := hzero more rfl
        rw [leadingDigits_append hmore hrest] at hlong
        cases hlong
      rw [List.cons_append, unsigned, if_neg (by simp [hc]), if_neg hshort, ← List.cons_append,
        hleading, hafter]

end Digits

theorem readNumber_minus (text : List Char) : readNumber ('-' :: text) = unsigned true text := rfl

theorem readNumber_of_digit {c : Char} (hc : c.isDigit = true) (rest : List Char) :
    readNumber (c :: rest) = unsigned false (c :: rest) := by
  unfold readNumber
  split
  · next heq =>
      obtain ⟨rfl, _⟩ := List.cons.inj heq
      exact absurd hc (by decide)
  · rfl

theorem digitsValue_toDigits (n : Nat) : digitsValue (Nat.toDigits 10 n) = n :=
  Nat.ofDigitChars_ten_toDigits

theorem isDigit_of_mem_toDigits {n : Nat} : ∀ c ∈ Nat.toDigits 10 n, c.isDigit = true :=
  fun _ hc => Nat.isDigit_of_mem_toDigits (by decide) (by decide) hc

/-- Only the number zero is written with a leading zero. -/
theorem toDigits_leading_zero (n : Nat) {rest : List Char}
    (h : Nat.toDigits 10 n = '0' :: rest) : n = 0 ∧ rest = [] := by
  induction n using Nat.strongRecOn generalizing rest with
  | ind n ih =>
      rw [Nat.toDigits_eq_if (by decide)] at h
      split at h
      · next hsmall =>
          have hrest : rest = [] := (List.cons.inj h).2.symm
          have hvalue := digitsValue_toDigits n
          rw [Nat.toDigits_eq_if (by decide), if_pos hsmall, h, hrest] at hvalue
          exact ⟨hvalue.symm, hrest⟩
      · next hlarge =>
          cases hfront : Nat.toDigits 10 (n / 10) with
          | nil => exact absurd hfront Nat.toDigits_ne_nil
          | cons c more =>
              rw [hfront, List.cons_append] at h
              obtain ⟨rfl, _⟩ := List.cons.inj h
              obtain ⟨hzero, _⟩ := ih (n / 10) (by omega) hfront
              omega

theorem unsigned_toDigits (negative : Bool) (n : Nat) {rest : List Char}
    (hrest : EndsDigits rest) :
    unsigned negative (Nat.toDigits 10 n ++ rest) =
      afterInteger negative (Nat.toDigits 10 n) rest :=
  unsigned_append isDigit_of_mem_toDigits hrest Nat.toDigits_ne_nil
    (fun _ h => (toDigits_leading_zero n h).2) negative

/-- A whole number ends before a text that does not continue a number. -/
theorem afterInteger_of_endsNumber (negative : Bool) (whole : List Char) {rest : List Char}
    (hrest : EndsNumber rest) :
    afterInteger negative whole rest =
      if negative then
        if digitsValue whole = 0 ∨ 1 <<< 63 < digitsValue whole then
          decimal true (kept whole []).digits (kept whole []).exponent rest
        else .ok (.integer (-(digitsValue whole)), rest)
      else if digitsValue whole < UInt64.size then .ok (.integer (digitsValue whole), rest)
      else decimal false (kept whole []).digits (kept whole []).exponent rest := by
  unfold afterInteger
  split
  · exact absurd rfl (hrest '.' rfl).2.1
  · exact absurd rfl (hrest 'e' rfl).2.2.1
  · exact absurd rfl (hrest 'E' rfl).2.2.2
  · rfl

/-- Natural numbers of 64 bits read back. -/
theorem numberReads_ofNat {n : Nat} (h : n < UInt64.size) : NumberReads (.integer n) := by
  intro rest hrest
  have htext : Document.numberText (.integer n) = Nat.toDigits 10 n := by
    simp [Document.numberText, integerText]
  have hunsigned := unsigned_toDigits false n hrest.endsDigits
  rw [htext]
  cases hn : Nat.toDigits 10 n with
  | nil => exact absurd hn Nat.toDigits_ne_nil
  | cons c more =>
      have hc : c.isDigit = true := isDigit_of_mem_toDigits c (hn ▸ List.mem_cons_self)
      rw [hn] at hunsigned
      rw [List.cons_append, readNumber_of_digit hc, ← List.cons_append, hunsigned,
        afterInteger_of_endsNumber false _ hrest, if_neg Bool.false_ne_true, ← hn,
        digitsValue_toDigits, if_pos h]

/-- Negative numbers of 64 bits read back. -/
theorem numberReads_negative {n : Int} (hneg : n < 0) (h : -(1 <<< 63) ≤ n) :
    NumberReads (.integer n) := by
  intro rest hrest
  have htext : Document.numberText (.integer n) = '-' :: Nat.toDigits 10 n.natAbs := by
    simp [Document.numberText, integerText, hneg]
  have hsmall : ¬(n.natAbs = 0 ∨ 1 <<< 63 < n.natAbs) := by
    have hbound : (1 <<< 63 : Int) = 9223372036854775808 := by decide
    have hbound' : (1 <<< 63 : Nat) = 9223372036854775808 := by decide
    omega
  have hvalue : -(n.natAbs : Int) = n := by omega
  rw [htext, List.cons_append, readNumber_minus, unsigned_toDigits true _ hrest.endsDigits,
    afterInteger_of_endsNumber true _ hrest, if_pos rfl, digitsValue_toDigits, if_neg hsmall,
    hvalue]

/-- Signed and unsigned integers of 64 bits read back. -/
theorem numberReads_integer {n : Int} (hleast : -(1 <<< 63) ≤ n) (hgreatest : n < UInt64.size) :
    NumberReads (.integer n) := by
  by_cases hneg : n < 0
  · exact numberReads_negative hneg hleast
  · have hnat : ((n.toNat : Nat) : Int) = n := by omega
    rw [← hnat]
    exact numberReads_ofNat (by omega)

section Characters

/-- The characters of numbers. -/
def isNumberChar (c : Char) : Bool := c.isDigit || c = '.' || c = 'e' || c = '+' || c = '-'

theorem isNumberChar_of_isDigit {c : Char} (h : c.isDigit = true) : isNumberChar c = true := by
  simp [isNumberChar, h]

theorem isNumberChar_of_mem_toDigits {n : Nat} :
    ∀ c ∈ Nat.toDigits 10 n, isNumberChar c = true :=
  fun c hc => isNumberChar_of_isDigit (isDigit_of_mem_toDigits c hc)

theorem isDigit_of_mem_zeros (count : Nat) : ∀ c ∈ Layout.zeros count, c.isDigit = true := by
  intro c hc
  rw [List.eq_of_mem_replicate hc]
  rfl

theorem isNumberChar_of_mem_integerText (n : Int) :
    ∀ c ∈ integerText n, isNumberChar c = true := by
  unfold integerText
  split
  · exact List.forall_mem_cons.mpr ⟨rfl, isNumberChar_of_mem_toDigits⟩
  · exact isNumberChar_of_mem_toDigits

variable {digits : List Char} (h : ∀ c ∈ digits, isNumberChar c = true) (exponent : Int)

include h

theorem isNumberChar_of_mem_positional :
    ∀ c ∈ Layout.positional digits exponent, isNumberChar c = true := by
  have hzeros (count : Nat) : ∀ c ∈ Layout.zeros count, isNumberChar c = true := fun c hc =>
    isNumberChar_of_isDigit (isDigit_of_mem_zeros count c hc)
  unfold Layout.positional
  dsimp only
  split
  · simp only [List.forall_mem_append, List.forall_mem_cons]
    exact ⟨⟨h, hzeros _⟩, rfl, rfl, by simp⟩
  split
  · simp only [List.forall_mem_append, List.forall_mem_cons]
    exact ⟨fun c hc => h c (List.mem_of_mem_take hc), rfl,
      fun c hc => h c (List.mem_of_mem_drop hc)⟩
  · simp only [List.forall_mem_append, List.forall_mem_cons]
    exact ⟨⟨rfl, rfl, hzeros _⟩, h⟩

theorem isNumberChar_of_mem_scientific :
    ∀ c ∈ Layout.document.scientific digits exponent, isNumberChar c = true := by
  unfold Layout.scientific
  dsimp only
  refine List.forall_mem_append.mpr ⟨List.forall_mem_append.mpr
    ⟨?mantissa, List.forall_mem_cons.mpr ⟨rfl, ?sign⟩⟩, isNumberChar_of_mem_toDigits⟩
  case mantissa =>
    split
    · simp
    · exact h
    · obtain ⟨hd, hrest⟩ := List.forall_mem_cons.mp h
      exact List.forall_mem_cons.mpr ⟨hd, List.forall_mem_cons.mpr ⟨rfl, hrest⟩⟩
  case sign => split <;> exact List.all_eq_true.mp rfl

omit h

theorem isNumberChar_of_mem_magnitude (x : Binary64) :
    ∀ c ∈ Layout.document.magnitude x, isNumberChar c = true := by
  unfold Layout.magnitude
  dsimp only
  split
  · exact List.all_eq_true.mp rfl
  split
  · exact isNumberChar_of_mem_positional isNumberChar_of_mem_toDigits _
  · exact isNumberChar_of_mem_scientific isNumberChar_of_mem_toDigits _

end Characters

section Skipping

variable {negative : Bool} {digits : Nat} {exponent : Int} {text rest : List Char} {n : Number}

theorem decimal_rest (h : decimal negative digits exponent text = .ok (n, rest)) : rest = text := by
  unfold decimal at h
  split at h
  · exact (Prod.mk.inj (Except.ok.inj h)).2.symm
  · cases h

/-- An exponent that can be read can be skipped. -/
theorem skipExponent_of_exponentPart
    (h : exponentPart negative digits exponent text = .ok (n, rest)) :
    skipExponent text = .ok rest := by
  have hdigits {c : Char} {more : List Char} (hc : c.isDigit = true) :
      ¬(leadingDigits (c :: more)).isEmpty = true := by
    simp [leadingDigits, hc]
  unfold exponentPart at h
  unfold skipExponent
  dsimp only at h ⊢
  split at h
  all_goals
    split at h
    · cases h
    · next c more =>
        split at h
        · next hc => rw [if_neg (hdigits hc), decimal_rest h]
        · cases h

theorem skipNumber_minus {c : Char} (hc : c.isDigit = true) (more : List Char) :
    skipNumber ('-' :: c :: more) = skipNumber (c :: more) := by
  unfold skipNumber
  split
  · next heq =>
      obtain ⟨_, rfl⟩ := List.cons.inj heq
      split
      · next heq =>
          obtain ⟨rfl, _⟩ := List.cons.inj heq
          exact absurd hc (by decide)
      · rfl
  · next hnot => exact absurd rfl (hnot _)

/-- The text after a number, behind the digits of its integer part. -/
def skipAfterInteger (text : List Char) : Except TextFault (List Char) :=
  match text with
  | '.' :: rest =>
    if (leadingDigits rest).isEmpty then .error .malformed
    else
      match afterDigits rest with
      | 'e' :: rest => skipExponent rest
      | 'E' :: rest => skipExponent rest
      | rest => .ok rest
  | 'e' :: rest => skipExponent rest
  | 'E' :: rest => skipExponent rest
  | rest => .ok rest

theorem skipNumber_of_digit {c : Char} (hc : c.isDigit = true) {more : List Char}
    (hzero : ¬(c = '0' ∧ (leadingDigits more).isEmpty = false)) :
    skipNumber (c :: more) = skipAfterInteger (afterDigits (c :: more)) := by
  have hwhole : leadingDigits (c :: more) = c :: leadingDigits more := by
    simp [leadingDigits, hc]
  have hform : ¬((leadingDigits (c :: more)).isEmpty = true ∨
      ((leadingDigits (c :: more)).head? = some '0' ∧ 1 < (leadingDigits (c :: more)).length)) := by
    rw [hwhole]
    rintro (hempty | ⟨hhead, hlong⟩)
    · cases hempty
    · apply hzero
      refine ⟨Option.some.inj hhead, ?_⟩
      cases hmore : leadingDigits more with
      | nil => simp [hmore] at hlong
      | cons d digits => rfl
  unfold skipNumber
  split
  · next heq =>
      obtain ⟨rfl, _⟩ := List.cons.inj heq
      exact absurd hc (by decide)
  · exact if_neg hform

/-- What can be read behind an integer part can be skipped. -/
theorem skipAfterInteger_of_afterInteger {whole : List Char}
    (h : afterInteger negative whole text = .ok (n, rest)) : skipAfterInteger text = .ok rest := by
  unfold afterInteger at h
  split at h
  · rw [skipAfterInteger]
    dsimp only at h
    split at h
    · cases h
    · cases h
    · next hplaces hafter =>
        rw [hplaces, hafter]
        exact skipExponent_of_exponentPart h
    · next hplaces hafter =>
        rw [hplaces, hafter]
        exact skipExponent_of_exponentPart h
    · next hplaces hsmall hlarge =>
        rw [hplaces, decimal_rest h, if_neg (by simp)]
        split
        · next heq => exact absurd heq (hsmall _)
        · next heq => exact absurd heq (hlarge _)
        · rfl
  · exact skipExponent_of_exponentPart h
  · exact skipExponent_of_exponentPart h
  · next hpoint hsmall hlarge =>
      have hskip : skipAfterInteger text = .ok text := by
        unfold skipAfterInteger
        split
        · exact absurd rfl (hpoint _)
        · exact absurd rfl (hsmall _)
        · exact absurd rfl (hlarge _)
        · rfl
      rw [hskip]
      dsimp only at h
      split at h
      · split at h
        · rw [decimal_rest h]
        · rw [(Prod.mk.inj (Except.ok.inj h)).2]
      · split at h
        · rw [(Prod.mk.inj (Except.ok.inj h)).2]
        · rw [decimal_rest h]

/-- An unsigned number that can be read starts with a digit and can be skipped. -/
theorem skipNumber_of_unsigned (h : unsigned negative text = .ok (n, rest)) :
    (∃ c more, text = c :: more ∧ c.isDigit = true) ∧ skipNumber text = .ok rest := by
  unfold unsigned at h
  split at h
  · cases h
  · next c more =>
      split at h
      · cases h
      · next hdigit =>
          have hc : c.isDigit = true := by simpa using hdigit
          split at h
          · cases h
          · next hzero =>
              refine ⟨⟨c, more, rfl, hc⟩, ?_⟩
              rw [skipNumber_of_digit hc hzero]
              exact skipAfterInteger_of_afterInteger h

/-- A number that can be read can be skipped, and both stop at one place. -/
theorem skipNumber_of_readNumber (h : readNumber text = .ok (n, rest)) :
    skipNumber text = .ok rest := by
  unfold readNumber at h
  split at h
  · obtain ⟨⟨c, more, rfl, hc⟩, hskip⟩ := skipNumber_of_unsigned h
    rw [skipNumber_minus hc, hskip]
  · exact (skipNumber_of_unsigned h).2

end Skipping

end Lexeme

end AggQuery
