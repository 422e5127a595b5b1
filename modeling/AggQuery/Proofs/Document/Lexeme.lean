import AggQuery.Document.Lexeme
import AggQuery.Document.Writer

/-!
# Strings read back

The text of a string is read back as that string, whatever text follows, and the reader
stops right behind it.
-/

namespace AggQuery

namespace Lexeme

theorem skipBlanks_append {blanks : List Char} (h : ∀ c ∈ blanks, isBlank c = true)
    (text : List Char) : skipBlanks (blanks ++ text) = skipBlanks text := by
  induction blanks with
  | nil => rfl
  | cons c rest ih =>
      obtain ⟨hc, hrest⟩ := List.forall_mem_cons.mp h
      have hstep : skipBlanks (c :: (rest ++ text)) = skipBlanks (rest ++ text) := by
        simp [skipBlanks, hc]
      rw [List.cons_append, hstep, ih hrest]

theorem skipBlanks_cons {c : Char} (h : isBlank c = false) (rest : List Char) :
    skipBlanks (c :: rest) = c :: rest := by
  simp [skipBlanks, h]

theorem shortOfFour_cons (a b c d : Char) (rest : List Char) :
    shortOfFour (a :: b :: c :: d :: rest) = false := by
  have ha := a.utf8Size_pos
  have hb := b.utf8Size_pos
  have hc := c.utf8Size_pos
  have hd := d.utf8Size_pos
  refine decide_eq_false ?_
  simp only [List.take_succ_cons, List.take_zero, List.foldl_cons, List.foldl_nil]
  omega

/-- Two hexadecimal digits write a control as a unit. -/
theorem hexUnit?_control : ∀ n < 32,
    hexUnit? '0' '0' (Text.hexDigit (n / 16)) (Text.hexDigit (n % 16)) = some n := by
  decide

/-- A unit that is no surrogate is read as its character. -/
theorem readString_unit (acc : List Char) {a b c d : Char} {unit : Nat} (rest : List Char)
    (h : hexUnit? a b c d = some unit) (hlow : isLowSurrogate unit = false)
    (hhigh : isHighSurrogate unit = false) :
    readString acc ('\\' :: 'u' :: a :: b :: c :: d :: rest) =
      readString (Char.ofNat unit :: acc) rest := by
  rw [readString, shortOfFour_cons]
  simp [h, hlow, hhigh]

theorem readString_plain (acc : List Char) {c : Char} (rest : List Char) (hquote : c ≠ '"')
    (hbackslash : c ≠ '\\') (hcontrol : ¬c.toNat < 32) :
    readString acc (c :: rest) = readString (c :: acc) rest := by
  conv => lhs; unfold readString
  split
  · next heq => cases heq
  · next heq => exact absurd (List.cons.inj heq).1 hquote
  · next heq => exact absurd (List.cons.inj heq).1 hbackslash
  · next heq =>
      obtain ⟨rfl, rfl⟩ := List.cons.inj heq
      exact if_neg hcontrol

/-- A character is written with a letter that stands for it, as a unit, or as it is. -/
theorem escapeChar_cases (c : Char) :
    (∃ letter, Document.escapeChar c = ['\\', letter] ∧ escaped? letter = some c) ∨
      (c.toNat < 32 ∧ Document.escapeChar c =
        ['\\', 'u', '0', '0', Text.hexDigit (c.toNat / 16), Text.hexDigit (c.toNat % 16)]) ∨
      (c ≠ '"' ∧ c ≠ '\\' ∧ ¬c.toNat < 32 ∧ Document.escapeChar c = [c]) := by
  unfold Document.escapeChar
  split
  · next h => exact Or.inl ⟨'"', rfl, by rw [h]; rfl⟩
  split
  · next h => exact Or.inl ⟨'\\', rfl, by rw [h]; rfl⟩
  split
  · next h => exact Or.inl ⟨'b', rfl, by rw [h]; rfl⟩
  split
  · next h => exact Or.inl ⟨'t', rfl, by rw [h]; rfl⟩
  split
  · next h => exact Or.inl ⟨'n', rfl, by rw [h]; rfl⟩
  split
  · next h => exact Or.inl ⟨'f', rfl, by rw [h]; rfl⟩
  split
  · next h => exact Or.inl ⟨'r', rfl, by rw [h]; rfl⟩
  split
  · next h => exact Or.inr (Or.inl ⟨h, rfl⟩)
  · next hquote hbackslash _ _ _ _ _ hcontrol =>
      exact Or.inr (Or.inr ⟨hquote, hbackslash, hcontrol, rfl⟩)

theorem escaped?_ne_unit {letter c : Char} (h : escaped? letter = some c) : letter ≠ 'u' := by
  rintro rfl
  cases h

theorem readString_letter (acc : List Char) {letter c : Char} (h : escaped? letter = some c)
    (rest : List Char) :
    readString acc ('\\' :: letter :: rest) = readString (c :: acc) rest := by
  -- The unit case of the match is ruled out by this fact.
  have hunit : letter ≠ 'u' := escaped?_ne_unit h
  rw [readString.eq_def]
  simp [h]

/-- One escaped character reads back. -/
theorem readString_escapeChar (acc : List Char) (c : Char) (rest : List Char) :
    readString acc (Document.escapeChar c ++ rest) = readString (c :: acc) rest := by
  rcases escapeChar_cases c with ⟨letter, htext, hletter⟩ | ⟨hcontrol, htext⟩ |
    ⟨hquote, hbackslash, hcontrol, htext⟩
  · rw [htext]
    exact readString_letter acc hletter rest
  · have hlow : isLowSurrogate c.toNat = false := by
      simp only [isLowSurrogate, Bool.and_eq_false_iff, decide_eq_false_iff_not]
      omega
    have hhigh : isHighSurrogate c.toNat = false := by
      simp only [isHighSurrogate, Bool.and_eq_false_iff, decide_eq_false_iff_not]
      omega
    have hunit := readString_unit acc rest (hexUnit?_control c.toNat hcontrol) hlow hhigh
    rw [Char.ofNat_toNat] at hunit
    rw [htext]
    exact hunit
  · rw [htext]
    exact readString_plain acc rest hquote hbackslash hcontrol

theorem readString_escaped (acc token rest : List Char) :
    readString acc (token.flatMap Document.escapeChar ++ '"' :: rest) =
      .ok (String.ofList (acc.reverse ++ token), rest) := by
  induction token generalizing acc with
  | nil => simp [readString]
  | cons c token ih =>
      rw [List.flatMap_cons, List.append_assoc, readString_escapeChar, ih]
      simp

/-- A string reads back, whatever text follows. -/
theorem readString_quoteOnto (s : String) (rest : List Char) :
    ∃ text, Document.quoteOnto s rest = '"' :: text ∧ readString [] text = .ok (s, rest) := by
  refine ⟨s.toList.flatMap Document.escapeChar ++ '"' :: rest, rfl, ?_⟩
  simpa using readString_escaped [] s.toList rest

end Lexeme

end AggQuery
