import AggQuery.Proofs.Document.Legible
import AggQuery.Proofs.Document.Lexeme
import AggQuery.Proofs.Document.NumberText
import AggQuery.Proofs.Document.Spacing
import AggQuery.Reading.Text

/-!
# Skipping documents

The compact text of a document can be skipped, and the skipper stops right behind it
(`skipValue_compactOnto`). So an unknown key of an object changes nothing but the place at
which the reader goes on.

## Implementation notes

The skipper is a loop on the open brackets. Its steps on the text of a document are counted
against the characters of the text, twice for each, as is the fuel.
-/

namespace AggQuery

open Lexeme Document

namespace Lexeme

theorem skipString_letter {letter c : Char} (h : escaped? letter = some c) (rest : List Char) :
    skipString ('\\' :: letter :: rest) = skipString rest := by
  have hunit : letter ≠ 'u' := escaped?_ne_unit h
  rw [skipString.eq_def]
  simp [h]

theorem skipString_plain {c : Char} (rest : List Char) (hquote : c ≠ '"') (hbackslash : c ≠ '\\')
    (hcontrol : ¬c.toNat < 32) : skipString (c :: rest) = skipString rest := by
  rw [skipString.eq_def]
  simp [hcontrol]

theorem skipString_escapeChar (c : Char) (rest : List Char) :
    skipString (escapeChar c ++ rest) = skipString rest := by
  rcases escapeChar_cases c with ⟨letter, htext, hletter⟩ | ⟨hcontrol, htext⟩ |
    ⟨hquote, hbackslash, hcontrol, htext⟩
  · rw [htext]
    exact skipString_letter hletter rest
  · have hunit := hexUnit?_control c.toNat hcontrol
    rw [htext]
    simp [skipString, shortOfFour_cons, hunit]
  · rw [htext]
    exact skipString_plain rest hquote hbackslash hcontrol

/-- A string can be skipped, whatever text follows. -/
theorem skipString_quoteOnto (s : String) (rest : List Char) :
    ∃ text, quoteOnto s rest = '"' :: text ∧ skipString text = .ok rest := by
  refine ⟨s.toList.flatMap escapeChar ++ '"' :: rest, rfl, ?_⟩
  induction s.toList with
  | nil => rfl
  | cons c token ih =>
      rw [List.flatMap_cons, List.append_assoc, skipString_escapeChar, ih]

end Lexeme

namespace Document

/-- The text of a document starts with a character that is no blank and ends nothing. -/
theorem exists_head_spacedOnto {document : Document} (h : document.Legible NumberReads)
    (spacing : Spacing) (level : Nat) (rest : List Char) :
    ∃ c tail, spacedOnto spacing document level rest = c :: tail ∧ isBlank c = false ∧
      c ≠ ']' ∧ c ≠ '\x7d' ∧ c ≠ ',' := by
  cases h with
  | null => exact ⟨'n', _, rfl, by decide⟩
  | boolean b => cases b <;> exact ⟨_, _, rfl, by decide⟩
  | number h =>
      obtain ⟨c, tail, htext, hc⟩ := h.head
      exact ⟨c, tail ++ rest, by rw [spacedOnto, htext]; rfl, isBlank_of_numberStart hc,
        ne_of_numberStart hc (by decide) (by decide),
        ne_of_numberStart hc (by decide) (by decide),
        ne_of_numberStart hc (by decide) (by decide)⟩
  | string s => exact ⟨'"', _, rfl, by decide⟩
  | @array items _ => cases items <;> exact ⟨'[', _, rfl, by decide⟩
  | @object fields _ _ => cases fields <;> exact ⟨'\x7b', _, rfl, by decide⟩

theorem exists_head {document : Document} (h : document.Legible NumberReads)
    (rest : List Char) :
    ∃ c tail, compactOnto document rest = c :: tail ∧ isBlank c = false ∧
      c ≠ ']' ∧ c ≠ '\x7d' ∧ c ≠ ',' := by
  rw [compactOnto_eq_spacedOnto 0]
  exact exists_head_spacedOnto h .tight 0 rest

theorem endsNumber_compactItemsOnto (items : List Document) (rest : List Char) :
    EndsNumber (compactItemsOnto items (']' :: rest)) := by
  cases items <;> simp [compactItemsOnto, EndsNumber]

theorem endsNumber_compactFieldsOnto (fields : Fields) (rest : List Char) :
    EndsNumber (compactFieldsOnto fields ('\x7d' :: rest)) := by
  cases fields <;> simp [compactFieldsOnto, EndsNumber]

end Document

namespace TextReader

/-- From a value on, the skipper gets behind the text of the document, whatever brackets are
open, in no more steps than twice the characters of the text. -/
def Skips (document : Document) : Prop :=
  ∀ rest, EndsNumber rest → ∃ steps,
    steps + 2 * rest.length ≤ 2 * (compactOnto document rest).length ∧
    ∀ fuel brackets, skipFrom (fuel + steps) brackets .value (compactOnto document rest) =
      skipFrom fuel brackets .ended rest

/-- A scalar is skipped in one step. -/
theorem skips_scalar {document : Document}
    (h : ∀ rest, EndsNumber rest → ∃ c text, compactOnto document rest = c :: text ∧
      rest.length ≤ text.length ∧ isBlank c = false ∧ c ≠ '[' ∧ c ≠ '\x7b' ∧
      skipScalar (c :: text) = .ok rest) : Skips document := by
  intro rest hrest
  obtain ⟨c, text, htext, hlength, hblank, harray, hobject, hskip⟩ := h rest hrest
  refine ⟨1, ?_, ?_⟩
  · rw [htext, List.length_cons]
    omega
  · intro fuel brackets
    rw [htext, skipFrom.eq_def]
    simp [skipBlanks_cons hblank, harray, hobject, hskip]

theorem skips_null : Skips .null :=
  skips_scalar fun rest _ => ⟨'n', _, rfl, by simp; omega, by decide, by decide, by decide, rfl⟩

theorem skips_boolean (b : Bool) : Skips (.boolean b) := by
  cases b
  · exact skips_scalar fun rest _ =>
      ⟨'f', _, rfl, by simp; omega, by decide, by decide, by decide, rfl⟩
  · exact skips_scalar fun rest _ =>
      ⟨'t', _, rfl, by simp; omega, by decide, by decide, by decide, rfl⟩

theorem skips_string (s : String) : Skips (.string s) := by
  apply skips_scalar
  intro rest _
  obtain ⟨text, htext, hskip⟩ := skipString_quoteOnto s rest
  refine ⟨'"', text, htext, ?_, by decide, by decide, by decide, hskip⟩
  have hlength := congrArg List.length htext
  simp only [quoteOnto, List.length_cons, List.length_append] at hlength
  omega

theorem skipScalar_number {c : Char} (hc : c = '-' ∨ c.isDigit = true) (text : List Char) :
    skipScalar (c :: text) = skipNumber (c :: text) := by
  have hquote : c ≠ '"' := ne_of_numberStart hc (by decide) (by decide)
  have hnull : c ≠ 'n' := ne_of_numberStart hc (by decide) (by decide)
  have htrue : c ≠ 't' := ne_of_numberStart hc (by decide) (by decide)
  have hfalse : c ≠ 'f' := ne_of_numberStart hc (by decide) (by decide)
  rw [skipScalar.eq_def]
  simp [hc]

theorem skips_number {n : Number} (h : NumberReads n) : Skips (.number n) := by
  apply skips_scalar
  intro rest hrest
  obtain ⟨c, tail, htext, hc⟩ := h.head
  have hread := h rest hrest
  rw [htext] at hread
  refine ⟨c, tail ++ rest, ?_, by simp, isBlank_of_numberStart hc,
    ne_of_numberStart hc (by decide) (by decide), ne_of_numberStart hc (by decide) (by decide), ?_⟩
  · rw [compactOnto, htext, List.cons_append]
  · rw [skipScalar_number hc]
    exact skipNumber_of_readNumber hread

section Steps

variable (fuel : Nat) (outer rest : List Char)

/-- The bracket that closes the innermost open one. -/
theorem skipFrom_close {bracket close : Char}
    (h : (bracket = '[' ∧ close = ']') ∨ (bracket = '\x7b' ∧ close = '\x7d'))
    {state : SkipState} (hstate : state ≠ .value) :
    skipFrom (fuel + 1) (bracket :: outer) state (close :: rest) =
      skipFrom fuel outer .ended rest := by
  rcases h with ⟨rfl, rfl⟩ | ⟨rfl, rfl⟩
  · rw [skipFrom.eq_def]
    simp [hstate, skipBlanks, isBlank]
  · rw [skipFrom.eq_def]
    simp [hstate, skipBlanks, isBlank]

theorem skipFrom_open {bracket : Char} (h : bracket = '[' ∨ bracket = '\x7b') :
    skipFrom (fuel + 1) outer .value (bracket :: rest) =
      skipFrom fuel (bracket :: outer) .opened rest := by
  rcases h with rfl | rfl
  · rw [skipFrom.eq_def]
    simp [skipBlanks, isBlank]
  · rw [skipFrom.eq_def]
    simp [skipBlanks, isBlank]

theorem skipFrom_comma_item :
    skipFrom (fuel + 1) ('[' :: outer) .ended (',' :: rest) =
      skipFrom fuel ('[' :: outer) .value rest := by
  rw [skipFrom.eq_def]
  simp [skipBlanks, isBlank]

theorem skipFrom_first_item {c : Char} (hblank : isBlank c = false) (hclose : c ≠ ']') :
    skipFrom (fuel + 1) ('[' :: outer) .opened (c :: rest) =
      skipFrom fuel ('[' :: outer) .value (c :: rest) := by
  rw [skipFrom.eq_def]
  simp [skipBlanks_cons hblank, hclose]

theorem skipFrom_first_key (key : String) :
    skipFrom (fuel + 1) ('\x7b' :: outer) .opened (quoteOnto key (':' :: rest)) =
      skipFrom fuel ('\x7b' :: outer) .value rest := by
  obtain ⟨text, htext, hskip⟩ := skipString_quoteOnto key (':' :: rest)
  rw [htext, skipFrom.eq_def]
  simp [skipBlanks, isBlank, hskip, colon]

theorem skipFrom_comma_key (key : String) :
    skipFrom (fuel + 1) ('\x7b' :: outer) .ended (',' :: quoteOnto key (':' :: rest)) =
      skipFrom fuel ('\x7b' :: outer) .value rest := by
  obtain ⟨text, htext, hskip⟩ := skipString_quoteOnto key (':' :: rest)
  rw [htext, skipFrom.eq_def]
  simp [skipBlanks, isBlank, hskip, colon]

end Steps

/-- The items after the first are skipped up to the closing bracket. -/
theorem skipFrom_items {items : List Document} (h : ∀ item ∈ items, Skips item)
    (rest : List Char) :
    ∃ steps, steps + 2 * rest.length ≤ 2 * (compactItemsOnto items (']' :: rest)).length ∧
      ∀ fuel outer, skipFrom (fuel + steps) ('[' :: outer) .ended
        (compactItemsOnto items (']' :: rest)) = skipFrom fuel outer .ended rest := by
  induction items with
  | nil =>
      refine ⟨1, by simp [compactItemsOnto]; omega, ?_⟩
      intro fuel outer
      exact skipFrom_close fuel outer rest (by decide) (by decide)
  | cons item items ih =>
      obtain ⟨hitem, hitems⟩ := List.forall_mem_cons.mp h
      obtain ⟨more, hmoreLength, hmore⟩ := ih hitems
      obtain ⟨steps, hlength, hsteps⟩ := hitem _ (endsNumber_compactItemsOnto items rest)
      refine ⟨more + steps + 1, ?_, ?_⟩
      · simp only [compactItemsOnto, List.length_cons]
        omega
      · intro fuel outer
        have hfuel : fuel + (more + steps + 1) = fuel + more + steps + 1 := by omega
        rw [compactItemsOnto, hfuel, skipFrom_comma_item, hsteps, hmore]

theorem skips_array {items : List Document} (hlegible : ∀ item ∈ items, item.Legible NumberReads)
    (h : ∀ item ∈ items, Skips item) : Skips (.array items) := by
  intro rest _
  cases items with
  | nil =>
      refine ⟨2, by simp [compactOnto]; omega, ?_⟩
      intro fuel brackets
      rw [compactOnto, skipFrom_open _ _ _ (Or.inl rfl),
        skipFrom_close _ _ _ (by decide) (by decide)]
  | cons item items =>
      obtain ⟨hitem, hitems⟩ := List.forall_mem_cons.mp h
      obtain ⟨more, hmoreLength, hmore⟩ := skipFrom_items hitems rest
      obtain ⟨steps, hlength, hsteps⟩ := hitem _ (endsNumber_compactItemsOnto items rest)
      obtain ⟨c, tail, htext, hblank, hclose, -⟩ :=
        exists_head (hlegible item List.mem_cons_self) (compactItemsOnto items (']' :: rest))
      refine ⟨more + steps + 2, ?_, ?_⟩
      · simp only [compactOnto, List.length_cons]
        omega
      · intro fuel brackets
        have hfuel : fuel + (more + steps + 2) = fuel + more + steps + 1 + 1 := by omega
        rw [compactOnto, hfuel, skipFrom_open _ _ _ (Or.inl rfl), htext,
          skipFrom_first_item _ _ _ hblank hclose, ← htext, hsteps, hmore]

/-- The fields after the first are skipped up to the closing bracket. -/
theorem skipFrom_fields {fields : Fields} (h : ∀ entry ∈ fields, Skips entry.2)
    (rest : List Char) :
    ∃ steps, steps + 2 * rest.length ≤ 2 * (compactFieldsOnto fields ('\x7d' :: rest)).length ∧
      ∀ fuel outer, skipFrom (fuel + steps) ('\x7b' :: outer) .ended
        (compactFieldsOnto fields ('\x7d' :: rest)) = skipFrom fuel outer .ended rest := by
  induction fields with
  | nil =>
      refine ⟨1, by simp [compactFieldsOnto]; omega, ?_⟩
      intro fuel outer
      exact skipFrom_close fuel outer rest (by decide) (by decide)
  | cons entry fields ih =>
      obtain ⟨key, value⟩ := entry
      obtain ⟨hvalue, hfields⟩ := List.forall_mem_cons.mp h
      obtain ⟨more, hmoreLength, hmore⟩ := ih hfields
      obtain ⟨steps, hlength, hsteps⟩ := hvalue _ (endsNumber_compactFieldsOnto fields rest)
      refine ⟨more + steps + 1, ?_, ?_⟩
      · simp only [compactFieldsOnto, quoteOnto, List.length_cons, List.length_append]
          at hlength ⊢
        omega
      · intro fuel outer
        have hfuel : fuel + (more + steps + 1) = fuel + more + steps + 1 := by omega
        rw [compactFieldsOnto, hfuel, skipFrom_comma_key, hsteps, hmore]

theorem skips_object {fields : Fields} (h : ∀ entry ∈ fields, Skips entry.2) :
    Skips (.object fields) := by
  intro rest _
  cases fields with
  | nil =>
      refine ⟨2, by simp [compactOnto]; omega, ?_⟩
      intro fuel brackets
      rw [compactOnto, skipFrom_open _ _ _ (Or.inr rfl),
        skipFrom_close _ _ _ (by decide) (by decide)]
  | cons entry fields =>
      obtain ⟨key, value⟩ := entry
      obtain ⟨hvalue, hfields⟩ := List.forall_mem_cons.mp h
      obtain ⟨more, hmoreLength, hmore⟩ := skipFrom_fields hfields rest
      obtain ⟨steps, hlength, hsteps⟩ := hvalue _ (endsNumber_compactFieldsOnto fields rest)
      refine ⟨more + steps + 2, ?_, ?_⟩
      · simp only [compactOnto, quoteOnto, List.length_cons, List.length_append] at hlength ⊢
        omega
      · intro fuel brackets
        have hfuel : fuel + (more + steps + 2) = fuel + more + steps + 1 + 1 := by omega
        rw [compactOnto, hfuel, skipFrom_open _ _ _ (Or.inr rfl), skipFrom_first_key, hsteps,
          hmore]

theorem skips_of_legible {document : Document} (h : document.Legible NumberReads) :
    Skips document := by
  induction h with
  | null => exact skips_null
  | boolean b => exact skips_boolean b
  | number h => exact skips_number h
  | string s => exact skips_string s
  | array hitems ih => exact skips_array hitems ih
  | object _ _ ih => exact skips_object ih

/-- The compact text of a document is skipped up to the text behind it. -/
theorem skipValue_compactOnto {document : Document} (h : document.Legible NumberReads)
    {rest : List Char} (hrest : EndsNumber rest) :
    skipValue (compactOnto document rest) = .ok rest := by
  obtain ⟨steps, hlength, hsteps⟩ := skips_of_legible h rest hrest
  obtain ⟨fuel, hfuel⟩ : ∃ fuel,
      2 * (compactOnto document rest).length + 2 = fuel + 1 + steps :=
    ⟨2 * (compactOnto document rest).length + 1 - steps, by omega⟩
  rw [skipValue, hfuel, hsteps, skipFrom.eq_def]
  rfl

end TextReader

end AggQuery
