import AggQuery.Proofs.Yaml.DocumentNodes

/-!
# Document text as YAML text

The compact text of a document, whose keys are short words, is a YAML text: it is read as the
document with each of its strings as it is read, or as no document where one of them cannot be
read (`parse_compact`). A string is read as itself exactly if it keeps its characters
(`reread_eq_self_iff`): none of them is excluded from YAML texts, and none is lost next to a
line break that stands in the text as it is.
-/

namespace AggQuery.Yaml

open Document Tokenizer

/-- Whether a string can stand in a YAML text with its controls escaped. -/
def isReadableText (s : String) : Bool := s.toList.all fun c => c.toNat < 32 || isReadable c

section Characters

variable {c : Char}

theorem isReadable_of_range (hleast : 0x20 ≤ c.toNat) (hgreatest : c.toNat ≤ 0x7e) :
    isReadable c = true := by
  have hrange : '\x20' ≤ c ∧ c ≤ '\x7e' := ⟨hleast, hgreatest⟩
  simp [isReadable, hrange]

theorem isReadable_of_isAlphanum (h : c.isAlphanum = true) : isReadable c = true := by
  unfold Char.isAlphanum Char.isAlpha Char.isUpper Char.isLower Char.isDigit at h
  simp only [Bool.or_eq_true, decide_eq_true_eq, Bool.and_eq_true, ge_iff_le,
    UInt32.le_iff_toNat_le] at h
  have hbounds : 'A'.val.toNat = 65 ∧ 'Z'.val.toNat = 90 ∧ 'a'.val.toNat = 97 ∧
      'z'.val.toNat = 122 ∧ '0'.val.toNat = 48 ∧ '9'.val.toNat = 57 := by decide
  apply isReadable_of_range <;> simp only [Char.toNat] <;> omega

theorem isReadable_of_isPlainChar (h : isPlainChar c = true) : isReadable c = true := by
  simp only [isPlainChar, Bool.or_eq_true, decide_eq_true_eq] at h
  rcases h with ((halphanum | rfl) | rfl) | rfl
  · exact isReadable_of_isAlphanum halphanum
  all_goals decide

theorem isReadable_of_isWordChar (h : isWordChar c = true) : isReadable c = true := by
  simp only [isWordChar, Bool.or_eq_true, decide_eq_true_eq] at h
  rcases h with (halphanum | rfl) | rfl
  · exact isReadable_of_isAlphanum halphanum
  all_goals decide

theorem isReadable_of_escaped? {letter : Char} (h : Lexeme.escaped? letter = some c) :
    isReadable letter = true ∧ (c.toNat < 32 || isReadable c) = true := by
  unfold Lexeme.escaped? at h
  split at h
  · next hself =>
      obtain rfl := Option.some.inj h
      rcases hself with rfl | rfl | rfl <;> decide
  iterate 5
    split at h
    · next hletter =>
        obtain rfl := Option.some.inj h
        rw [hletter]
        decide
  cases h

/-- An escaped control is readable, and any other character stands for itself. -/
theorem all_isReadable_escapeChar (c : Char) :
    (escapeChar c).all isReadable = (c.toNat < 32 || isReadable c) := by
  have hdigits : ∀ n < 32, isReadable (Text.hexDigit (n / 16)) = true ∧
      isReadable (Text.hexDigit (n % 16)) = true := by decide
  obtain ⟨letter, htext, hletter⟩ | ⟨hcontrol, htext⟩ | ⟨-, -, hcontrol, htext⟩ :=
    Lexeme.escapeChar_cases c
  · obtain ⟨hletter, hc⟩ := isReadable_of_escaped? hletter
    have hbackslash : isReadable '\\' = true := by decide
    rw [htext, hc]
    simp [hletter, hbackslash]
  · have hmarks : isReadable '\\' = true ∧ isReadable 'u' = true ∧ isReadable '0' = true := by
      decide
    simp [htext, hcontrol, hmarks, hdigits c.toNat hcontrol]
  · simp [htext, hcontrol]

end Characters

theorem all_isReadable_quoteOnto (s : String) (rest : List Char) :
    (quoteOnto s rest).all isReadable = (isReadableText s && rest.all isReadable) := by
  have hquote : isReadable '"' = true := by decide
  have htext (text : List Char) : (text.flatMap escapeChar).all isReadable =
      text.all fun c => c.toNat < 32 || isReadable c := by
    induction text with
    | nil => rfl
    | cons c text ih =>
        rw [List.flatMap_cons, List.all_append, all_isReadable_escapeChar, ih, List.all_cons]
  rw [quoteOnto, List.cons_append, List.all_cons, List.all_append, htext, List.all_cons, hquote]
  rfl

theorem isReadableText_of_isWord {key : String} (h : IsWord key) : isReadableText key = true := by
  refine List.all_eq_true.mpr fun c hc => ?_
  rw [isReadable_of_isWordChar (List.all_eq_true.mp h.1 c hc), Bool.or_true]

/-- The text of a document is readable, in front of any other, if its strings are. -/
def Shows (document : Document) : Prop :=
  ∀ rest, (compactOnto document rest).all isReadable =
    (document.strings.all isReadableText && rest.all isReadable)

theorem shows_word {document : Document} {text : List Char}
    (hdocument : ∀ rest, compactOnto document rest = text ++ rest)
    (hstrings : document.strings = []) (htext : ∀ c ∈ text, isPlainChar c = true) :
    Shows document := by
  intro rest
  have hall : text.all isReadable = true :=
    List.all_eq_true.mpr fun c hc => isReadable_of_isPlainChar (htext c hc)
  rw [hdocument, List.all_append, hall, hstrings]
  rfl

theorem all_isReadable_punctuation :
    isReadable '[' = true ∧ isReadable ']' = true ∧ isReadable '\x7b' = true ∧
      isReadable '\x7d' = true ∧ isReadable ',' = true ∧ isReadable ':' = true := by
  decide

theorem all_isReadable_items {items : List Document} (hitems : ∀ item ∈ items, Shows item)
    (rest : List Char) :
    (compactItemsOnto items rest).all isReadable =
      ((itemStrings items).all isReadableText && rest.all isReadable) := by
  induction items with
  | nil => rfl
  | cons item items ih =>
      obtain ⟨hitem, hitems⟩ := List.forall_mem_cons.mp hitems
      rw [compactItemsOnto, List.all_cons, hitem, ih hitems, itemStrings, List.all_append]
      simp [all_isReadable_punctuation, Bool.and_assoc]

theorem shows_array {items : List Document} (hitems : ∀ item ∈ items, Shows item) :
    Shows (.array items) := by
  intro rest
  cases items with
  | nil => simp [compactOnto, strings, itemStrings, all_isReadable_punctuation]
  | cons item items =>
      obtain ⟨hitem, hitems⟩ := List.forall_mem_cons.mp hitems
      rw [compactOnto, List.all_cons, hitem, all_isReadable_items hitems, strings, itemStrings,
        List.all_append]
      simp [all_isReadable_punctuation, Bool.and_assoc]

section Fields

variable {fields : Fields} (hwords : ∀ entry ∈ fields, IsWord entry.1)
  (hvalues : ∀ entry ∈ fields, Shows entry.2)

include hwords hvalues

theorem all_isReadable_fields (rest : List Char) :
    (compactFieldsOnto fields rest).all isReadable =
      ((fieldStrings fields).all isReadableText && rest.all isReadable) := by
  induction fields with
  | nil => rfl
  | cons entry fields ih =>
      obtain ⟨key, value⟩ := entry
      obtain ⟨hword, hwords⟩ := List.forall_mem_cons.mp hwords
      obtain ⟨hvalue, hvalues⟩ := List.forall_mem_cons.mp hvalues
      have hvalue : Shows value := hvalue
      rw [compactFieldsOnto, List.all_cons, all_isReadable_quoteOnto,
        isReadableText_of_isWord hword, List.all_cons, hvalue, ih hwords hvalues, fieldStrings,
        List.all_append]
      simp [all_isReadable_punctuation, Bool.and_assoc]

theorem shows_object : Shows (.object fields) := by
  intro rest
  cases fields with
  | nil => simp [compactOnto, strings, fieldStrings, all_isReadable_punctuation]
  | cons entry fields =>
      obtain ⟨key, value⟩ := entry
      obtain ⟨hword, hwords⟩ := List.forall_mem_cons.mp hwords
      obtain ⟨hvalue, hvalues⟩ := List.forall_mem_cons.mp hvalues
      have hvalue : Shows value := hvalue
      rw [compactOnto, List.all_cons, all_isReadable_quoteOnto, isReadableText_of_isWord hword,
        List.all_cons, hvalue, all_isReadable_fields hwords hvalues, strings, fieldStrings,
        List.all_append]
      simp [all_isReadable_punctuation, Bool.and_assoc]

end Fields

theorem WordKeys.shows {document : Document} (hkeys : WordKeys document)
    (hlegible : document.Legible Number.Fits) : Shows document := by
  induction hkeys with
  | null => exact shows_word (fun _ => rfl) rfl plain_nullText
  | boolean b => exact shows_word (fun _ => rfl) rfl (plain_booleanText b)
  | number n =>
      have hchars := numberText_chars ((legible_number n).mp hlegible)
      exact shows_word (fun _ => rfl) rfl fun c hc => isPlainChar_of_isNumberChar (hchars c hc)
  | string s =>
      intro rest
      rw [compactOnto, all_isReadable_quoteOnto, strings, List.all_cons, List.all_nil,
        Bool.and_true]
  | array _ ih => exact shows_array fun item hmem => ih item hmem (hlegible.of_mem_items item hmem)
  | object hwords _ ih =>
      exact shows_object hwords fun entry hmem => ih entry hmem (hlegible.of_mem hmem)

/-- A string as it is read from its document text; `none` if it makes the text unreadable. -/
def reread : String → Option String := guarded isReadableText refold

/-- Whether a string is read from its document text as it is. -/
def keepsText (s : String) : Bool := isReadableText s && isKept s.toList

theorem reread_eq_self_iff (s : String) : reread s = some s ↔ keepsText s = true := by
  have hfold : refold s = some s ↔ folded? s.toList = some s.toList := by
    rw [refold, Option.map_eq_some_iff]
    constructor
    · rintro ⟨text, htext, hs⟩
      rw [htext, ← hs, String.toList_ofList]
    · exact fun h => ⟨s.toList, h, String.ofList_toList⟩
  cases hreadable : isReadableText s with
  | false => simp [reread, guarded, keepsText, hreadable]
  | true => simp [reread, guarded, keepsText, hreadable, hfold, folded?_eq_self_iff]

/-- The compact text of an object is read as the object with its strings reread. -/
theorem parse_compact {fields : Fields} (hkeys : WordKeys (.object fields))
    (hlegible : (Document.object fields).Legible Number.Fits)
    (hdepth : (Document.object fields).depth ≤ nestingLimit) :
    parse (Document.object fields).compact = (Document.object fields).mapStrings? reread := by
  have hshows := hkeys.shows hlegible []
  rw [List.all_nil, Bool.and_true] at hshows
  rw [parse, tokenize_compact hkeys hlegible, hshows, reread, mapStrings?_guarded]
  split
  · cases hafter : (Document.object fields).mapStrings? refold with
    | none => rfl
    | some after =>
        obtain ⟨hafterLegible, hafterDepth⟩ := legible_of_mapStrings? hafter hlegible
        have hstands := @stands_of_legible { root := nodeOf after } after hafterLegible
          nestingLimit 0 (hafterDepth ▸ hdepth)
        rw [Option.map_some, Option.bind_eq_bind, Option.bind_some, ofTokens?_tokensOnto]
        simp [hstands]
  · rfl

end AggQuery.Yaml
