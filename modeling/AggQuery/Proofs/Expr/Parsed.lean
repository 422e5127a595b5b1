import AggQuery.Proofs.Aggregation.Descriptors
import AggQuery.Proofs.Expr.Readable

/-!
# Expressions of a front end

A front end groups operators by their precedence, writes parentheses where it groups
otherwise, and has no floating-point or negative constants. Its expressions can be told by
their scripts, so buckets of different dimensions have different names.

## Implementation notes

The leaves are read back from the script (`readLeaf_chars`): a quoted leaf up to its closing
quote, the wildcard as one character, and any other leaf as a word. So no pair of leaf kinds
is compared with another one.
-/

namespace AggQuery

/-- The level of an operator; operators of a higher level bind tighter. -/
def BinaryOp.precedence : BinaryOp → Nat
  | .or => 0
  | .and => 1
  | .eq | .neq => 2
  | .lt | .lte | .gt | .gte => 3
  | .add | .sub => 4
  | .mul | .div | .rem => 5

/-- One or more digits with one or more letters behind them. -/
def IsDurationText (text : List Char) : Prop :=
  ∃ digits letters, text = digits ++ letters ∧ digits ≠ [] ∧ letters ≠ [] ∧
    (∀ c ∈ digits, c.isDigit = true) ∧ ∀ c ∈ letters, c.isAlpha = true

theorem isDigit_eq_false_of_isAlpha {c : Char} (h : c.isAlpha = true) : c.isDigit = false := by
  unfold Char.isAlpha Char.isUpper Char.isLower at h
  simp only [Char.isDigit, Bool.or_eq_true, Bool.and_eq_true, decide_eq_true_eq,
    Bool.and_eq_false_iff, decide_eq_false_iff_not] at h ⊢
  grind

theorem isDigit_eq_false_of_start {c : Char} (h : isIdentifierStart c = true) :
    c.isDigit = false := by
  simp only [isIdentifierStart, Bool.or_eq_true, decide_eq_true_eq] at h
  rcases h with (h | rfl) | rfl
  · exact isDigit_eq_false_of_isAlpha h
  · decide
  · decide

theorem isIdentifierRest_of_isDigit {c : Char} (h : c.isDigit = true) :
    isIdentifierRest c = true := by
  simp [isIdentifierRest, Char.isAlphanum, h]

theorem isIdentifierRest_of_isAlpha {c : Char} (h : c.isAlpha = true) :
    isIdentifierRest c = true := by
  simp [isIdentifierRest, Char.isAlphanum, h]

theorem IsDurationText.isIdentifierRest {text : List Char} (h : IsDurationText text) :
    ∀ c ∈ text, isIdentifierRest c = true := by
  obtain ⟨digits, letters, rfl, -, -, hdigits, hletters⟩ := h
  intro c hc
  rcases List.mem_append.mp hc with hc | hc
  · exact isIdentifierRest_of_isDigit (hdigits c hc)
  · exact isIdentifierRest_of_isAlpha (hletters c hc)

theorem IsDurationText.exists_digit {text : List Char} (h : IsDurationText text) :
    ∃ c rest, text = c :: rest ∧ c.isDigit = true := by
  obtain ⟨digits, letters, rfl, hne, -, hdigits, -⟩ := h
  cases digits with
  | nil => exact absurd rfl hne
  | cons c digits => exact ⟨c, digits ++ letters, rfl, hdigits c List.mem_cons_self⟩

theorem IsDurationText.not_all_isDigit {text : List Char} (h : IsDurationText text) :
    ¬∀ c ∈ text, c.isDigit = true := by
  obtain ⟨digits, letters, rfl, -, hne, -, hletters⟩ := h
  intro hall
  cases letters with
  | nil => exact hne rfl
  | cons c letters =>
      have hletter := isDigit_eq_false_of_isAlpha (hletters c List.mem_cons_self)
      have hdigit := hall c (by simp)
      rw [hletter] at hdigit
      cases hdigit

namespace Expr

/-- The names that a front end reads as constants. -/
def reservedWords : List String := ["true", "false", "null"]

/-- A field, constant or wildcard of a front end. -/
inductive IsParsedLeaf : Expr → Prop
  | field {name : String} (hbackslash : '\\' ∉ name.toList) (hword : name ∉ reservedWords) :
      IsParsedLeaf (.field name)
  | string (s : String) : IsParsedLeaf (.literal (.string s))
  | integer {n : Int64} (h : 0 ≤ n.toInt) : IsParsedLeaf (.literal (.integer n))
  | boolean (b : Bool) : IsParsedLeaf (.literal (.boolean b))
  | duration {text : String} (h : IsDurationText text.toList) :
      IsParsedLeaf (.literal (.duration text))
  | null : IsParsedLeaf (.literal .null)
  | wildcard : IsParsedLeaf .wildcard

/-- An expression in the shape in which a front end parses it: its leaves are of that kind,
calls have plain names, and operators are grouped by precedence and from the left wherever
no parentheses group them. -/
def ParserShaped (e : Expr) : Prop := Grouped BinaryOp.precedence IsParsedLeaf e

section Words

/-- The leaf that stands as a word. -/
def leafOfWord (word : List Char) : Expr :=
  if word = "true".toList then .literal (.boolean true)
  else if word = "false".toList then .literal (.boolean false)
  else if word = "null".toList then .literal .null
  else if word.all Char.isDigit then
    .literal (.integer (Int64.ofInt (Nat.ofDigitChars 10 word 0)))
  else if word.head?.any Char.isDigit then .literal (.duration (String.ofList word))
  else .field (String.ofList word)

theorem leafOfWord_of_digit {c : Char} (hc : c.isDigit = true) (rest : List Char) :
    leafOfWord (c :: rest) =
      if (c :: rest).all Char.isDigit then
        .literal (.integer (Int64.ofInt (Nat.ofDigitChars 10 (c :: rest) 0)))
      else .literal (.duration (String.ofList (c :: rest))) := by
  have hne (letter : Char) (hletter : letter.isDigit = false) (more : List Char) :
      c :: rest ≠ letter :: more := by
    rintro heq
    obtain rfl := (List.cons.inj heq).1
    rw [hc] at hletter
    cases hletter
  have htrue : c :: rest ≠ "true".toList := hne 't' (by decide) _
  have hfalse : c :: rest ≠ "false".toList := hne 'f' (by decide) _
  have hnull : c :: rest ≠ "null".toList := hne 'n' (by decide) _
  have hhead : (c :: rest).head?.any Char.isDigit = true := by simpa using hc
  rw [leafOfWord, if_neg htrue, if_neg hfalse, if_neg hnull, if_pos hhead]

theorem leafOfWord_toDigits (n : Nat) :
    leafOfWord (Nat.toDigits 10 n) = .literal (.integer (Int64.ofInt n)) := by
  have hdigits : ∀ c ∈ Nat.toDigits 10 n, c.isDigit = true :=
    fun c hc => Nat.isDigit_of_mem_toDigits (by decide) (by decide) hc
  have hvalue : Nat.ofDigitChars 10 (Nat.toDigits 10 n) 0 = n := Nat.ofDigitChars_ten_toDigits
  cases htext : Nat.toDigits 10 n with
  | nil => exact absurd htext Nat.toDigits_ne_nil
  | cons c rest =>
      rw [htext] at hdigits hvalue
      rw [leafOfWord_of_digit (hdigits c List.mem_cons_self),
        if_pos (List.all_eq_true.mpr hdigits), hvalue]

theorem leafOfWord_duration {text : String} (h : IsDurationText text.toList) :
    leafOfWord text.toList = .literal (.duration text) := by
  obtain ⟨c, rest, htext, hc⟩ := h.exists_digit
  have hnot := h.not_all_isDigit
  rw [htext] at hnot
  rw [htext, leafOfWord_of_digit hc, if_neg (mt List.all_eq_true.mp hnot), ← htext,
    String.ofList_toList]

theorem leafOfWord_field {name : String} (hplain : isPlainIdentifier name.toList = true)
    (hword : name ∉ reservedWords) : leafOfWord name.toList = .field name := by
  have hreserved (word : String) (hmem : word ∈ reservedWords) : name.toList ≠ word.toList := by
    intro heq
    exact hword (String.toList_inj.mp heq ▸ hmem)
  obtain ⟨c, rest, htext, hstart⟩ := exists_start_of_plain hplain
  have hc := isDigit_eq_false_of_start hstart
  have hall : ¬name.toList.all Char.isDigit = true := by simp [htext, hc]
  have hhead : ¬name.toList.head?.any Char.isDigit = true := by simp [htext, hc]
  rw [leafOfWord, if_neg (hreserved "true" (by decide)), if_neg (hreserved "false" (by decide)),
    if_neg (hreserved "null" (by decide)), if_neg hall, if_neg hhead, String.ofList_toList]

end Words

/-- The leaf at the start of a text, and the text behind it. -/
def readLeaf (text : List Char) : Option (Expr × List Char) :=
  match text with
  | '"' :: rest =>
    (Text.Quoted.scan '"' rest).map fun (name, rest) => (.field (String.ofList name), rest)
  | '\'' :: rest =>
    (Text.Quoted.scan '\'' rest).map fun (s, rest) => (.literal (.string (String.ofList s)), rest)
  | '*' :: rest => some (.wildcard, rest)
  | _ => some (leafOfWord (text.takeWhile isIdentifierRest), text.dropWhile isIdentifierRest)

theorem takeWhile_append_of_stops {word r : List Char}
    (hword : ∀ c ∈ word, isIdentifierRest c = true) (hr : StopsIdentifier r) :
    (word ++ r).takeWhile isIdentifierRest = word ∧
      (word ++ r).dropWhile isIdentifierRest = r := by
  rw [List.takeWhile_append_of_pos hword, List.dropWhile_append_of_pos hword]
  cases r with
  | nil => simp
  | cons c rest => simp [hr c rfl]

/-- A word is read up to the text behind it. -/
theorem readLeaf_word {word r : List Char} (hne : word ≠ [])
    (hword : ∀ c ∈ word, isIdentifierRest c = true) (hr : StopsIdentifier r) :
    readLeaf (word ++ r) = some (leafOfWord word, r) := by
  obtain ⟨htake, hdrop⟩ := takeWhile_append_of_stops hword hr
  cases word with
  | nil => exact absurd rfl hne
  | cons first word =>
      have hfirst := hword first List.mem_cons_self
      have hhead (c : Char) (hc : isIdentifierRest c = false) (rest : List Char) :
          first :: word ++ r ≠ c :: rest := by
        intro heq
        obtain rfl := (List.cons.inj heq).1
        rw [hc] at hfirst
        cases hfirst
      unfold readLeaf
      split
      · next heq => exact absurd heq (hhead '"' (by decide) _)
      · next heq => exact absurd heq (hhead '\'' (by decide) _)
      · next heq => exact absurd heq (hhead '*' (by decide) _)
      · rw [htake, hdrop]

/-- Without a backslash in the name it makes no difference whether a backslash is marked. -/
theorem escape_quote_of_notMem {name : List Char} (h : '\\' ∉ name) :
    Text.Quoted.escape (· == '"') name =
      Text.Quoted.escape (fun c => c == '"' || c == '\\') name := by
  have hmarks : ∀ c ∈ name, (if (c == '"') = true then ['\\', c] else [c]) =
      if (c == '"' || c == '\\') = true then ['\\', c] else [c] := by
    intro c hc
    have hne : c ≠ '\\' := fun heq => h (heq ▸ hc)
    simp [hne]
  rw [Text.Quoted.escape, Text.Quoted.escape, List.flatMap_def, List.flatMap_def,
    List.map_congr_left hmarks]

theorem readLeaf_quotedField {name : String} (h : '\\' ∉ name.toList) (r : List Char) :
    readLeaf (Text.Quoted.enclose '"' (· == '"') name.toList ++ r) = some (.field name, r) := by
  have hscan : Text.Quoted.scan '"'
      (Text.Quoted.escape (fun c => c == '"' || c == '\\') name.toList ++ '"' :: r) =
        some (name.toList, r) :=
    Text.Quoted.scan_enclose (by decide) (by decide) (by decide) name.toList r
  simp only [Text.Quoted.enclose, escape_quote_of_notMem h, List.cons_append, List.append_assoc,
    List.nil_append, readLeaf, hscan, Option.map_some, String.ofList_toList]

theorem readLeaf_string (s : String) (r : List Char) :
    readLeaf ((literal (.string s)).chars ++ r) = some (.literal (.string s), r) := by
  have hscan : Text.Quoted.scan '\''
      (Text.Quoted.escape (fun c => c == '\'' || c == '\\') s.toList ++ '\'' :: r) =
        some (s.toList, r) :=
    Text.Quoted.scan_enclose (by decide) (by decide) (by decide) s.toList r
  simp only [chars, Literal.chars, Text.Quoted.enclose, List.cons_append, List.append_assoc,
    List.nil_append, readLeaf, hscan, Option.map_some, String.ofList_toList]

/-- A leaf that is written as a word and known by it. -/
structure IsWord (e : Expr) : Prop where
  chars_ne_nil : e.chars ≠ []
  isIdentifierRest : ∀ c ∈ e.chars, isIdentifierRest c = true
  leafOfWord_chars : leafOfWord e.chars = e

theorem isWord_field {name : String} (hplain : isPlainIdentifier name.toList = true)
    (hword : name ∉ reservedWords) : IsWord (.field name) := by
  have hchars : (field name).chars = name.toList := by rw [chars, fieldChars, if_pos hplain]
  constructor
  · obtain ⟨c, rest, htext, -⟩ := exists_start_of_plain hplain
    simp [hchars, htext]
  · rw [hchars]
    exact isIdentifierRest_of_plain hplain
  · rw [hchars]
    exact leafOfWord_field hplain hword

theorem isWord_integer {n : Int64} (h : 0 ≤ n.toInt) : IsWord (.literal (.integer n)) := by
  have hchars : (literal (.integer n)).chars = Nat.toDigits 10 n.toInt.natAbs := by
    rw [chars, Literal.chars, integerText, if_neg (by omega)]
  constructor
  · rw [hchars]
    exact Nat.toDigits_ne_nil
  · intro c hc
    rw [hchars] at hc
    exact isIdentifierRest_of_isDigit (Nat.isDigit_of_mem_toDigits (by decide) (by decide) hc)
  · have hvalue : ((n.toInt.natAbs : Nat) : Int) = n.toInt := by omega
    rw [hchars, leafOfWord_toDigits, hvalue, Int64.ofInt_toInt]

theorem isWord_duration {text : String} (h : IsDurationText text.toList) :
    IsWord (.literal (.duration text)) := by
  constructor
  · obtain ⟨c, rest, htext, -⟩ := h.exists_digit
    simp [chars, Literal.chars, htext]
  · exact h.isIdentifierRest
  · exact leafOfWord_duration h

/-- A leaf is a word, a quoted field, a string or the wildcard. -/
theorem IsParsedLeaf.token_cases {e : Expr} (h : IsParsedLeaf e) :
    IsWord e ∨
      (∃ name, e = .field name ∧ '\\' ∉ name.toList ∧
        e.chars = Text.Quoted.enclose '"' (· == '"') name.toList) ∨
      (∃ s, e = .literal (.string s)) ∨ e = .wildcard := by
  cases h with
  | @field name hbackslash hword =>
      by_cases hplain : isPlainIdentifier name.toList = true
      · exact Or.inl (isWord_field hplain hword)
      · exact Or.inr (Or.inl ⟨name, rfl, hbackslash, by rw [chars, fieldChars, if_neg hplain]⟩)
  | string s => exact Or.inr (Or.inr (Or.inl ⟨s, rfl⟩))
  | integer h => exact Or.inl (isWord_integer h)
  | boolean b => cases b <;> exact Or.inl ⟨by decide, List.all_eq_true.mp rfl, by decide⟩
  | duration h => exact Or.inl (isWord_duration h)
  | null => exact Or.inl ⟨by decide, List.all_eq_true.mp rfl, by decide⟩
  | wildcard => exact Or.inr (Or.inr (Or.inr rfl))

/-- A leaf reads back from its script, and the reader stops right behind it. -/
theorem readLeaf_chars {e : Expr} (he : IsParsedLeaf e) {r : List Char}
    (hr : StopsIdentifier r) : readLeaf (e.chars ++ r) = some (e, r) := by
  rcases he.token_cases with hword | ⟨name, rfl, hbackslash, hchars⟩ | ⟨s, rfl⟩ | rfl
  · rw [readLeaf_word hword.chars_ne_nil hword.isIdentifierRest hr, hword.leafOfWord_chars]
  · rw [hchars, readLeaf_quotedField hbackslash]
  · exact readLeaf_string s r
  · rfl

theorem isIdentifierRest_notMem_marks {c : Char} (h : isIdentifierRest c = true) :
    c ∉ marks := by
  intro hc
  simp only [marks, List.mem_cons, List.not_mem_nil, or_false] at hc
  rcases hc with rfl | rfl | rfl | rfl <;> exact absurd h (by decide)

theorem IsParsedLeaf.exists_head {e : Expr} (h : IsParsedLeaf e) :
    ∃ c rest, e.chars = c :: rest ∧ c ∉ marks := by
  rcases h.token_cases with hword | ⟨name, rfl, -, hchars⟩ | ⟨s, rfl⟩ | rfl
  · obtain ⟨c, rest, hchars⟩ := List.exists_cons_of_ne_nil hword.chars_ne_nil
    have hc : c ∈ e.chars := hchars ▸ List.mem_cons_self
    exact ⟨c, rest, hchars, isIdentifierRest_notMem_marks (hword.isIdentifierRest c hc)⟩
  · exact ⟨'"', _, hchars, by decide⟩
  · exact ⟨'\'', _, rfl, by decide⟩
  · exact ⟨'*', [], rfl, by decide⟩

theorem selfDelimiting_isParsedLeaf : SelfDelimiting IsParsedLeaf where
  head := IsParsedLeaf.exists_head
  unique := by
    intro e f r s he hf hr hs h
    have hread := readLeaf_chars he hr.stopsIdentifier
    rw [h, readLeaf_chars hf hs.stopsIdentifier] at hread
    obtain ⟨hleaf, hrest⟩ := Prod.mk.inj (Option.some.inj hread)
    exact ⟨hleaf.symm, hrest.symm⟩
  ne_call := by
    intro e name r s he hname hr h
    obtain ⟨c, rest, hchars, -⟩ := exists_start_of_plain hname
    have hread := readLeaf_chars he hr.stopsIdentifier
    rw [h, readLeaf_word (by simp [hchars]) (isIdentifierRest_of_plain hname)
      (stopsIdentifier_open s)] at hread
    have hopen := hr '(' (by rw [← (Prod.mk.inj (Option.some.inj hread)).2]; rfl)
    simp at hopen

theorem ParserShaped.script_inj {e f : Expr} (he : ParserShaped e) (hf : ParserShaped f)
    (h : e.script = f.script) : e = f :=
  Grouped.script_inj selfDelimiting_isParsedLeaf he hf h

/-- Different dimensions of this shape give buckets of different names. -/
theorem buckets_ne_duplicate {dimensions : List Expr}
    (hshaped : ∀ dimension ∈ dimensions, ParserShaped dimension) (hdistinct : dimensions.Nodup)
    (name : String) : buckets dimensions ≠ .error (.duplicateAggregation name) := by
  intro h
  have hfirst : FirstFault dimensionFault? dimensions (.duplicateAggregation name) := by
    rw [buckets_eq] at h
    rw [← firstFault?_eq_some_iff]
    split at h
    · next e hfault => rw [hfault, Except.error.inj h]
    · cases h
  obtain ⟨before, dimension, after, rfl, -, hfault⟩ := hfirst
  obtain ⟨other, hother, hscript⟩ : ∃ other ∈ before, other.script = dimension.script := by
    unfold dimensionFault? at hfault
    split at hfault
    · cases hfault
    · split at hfault
      · next hrepeated => exact hrepeated
      · cases hfault
  have hsame : other = dimension := (hshaped other (by simp [hother])).script_inj
    (hshaped dimension (by simp)) hscript
  exact (List.nodup_append.mp hdistinct).2.2 other hother dimension List.mem_cons_self hsame

/-- An expression in the shape in which a front end parses it is known by its script, so
different dimensions never ask for one bucket name twice. -/
theorem parserShaped_unambiguous :
    (∀ e f, ParserShaped e → ParserShaped f → e.script = f.script → e = f) ∧
      ∀ dimensions : List Expr, (∀ dimension ∈ dimensions, ParserShaped dimension) →
        dimensions.Nodup → ∀ name, buckets dimensions ≠ .error (.duplicateAggregation name) := by
  constructor
  · intro e f he hf h
    exact he.script_inj hf h
  · intro dimensions hshaped hdistinct name
    exact buckets_ne_duplicate hshaped hdistinct name

/-- A difference with a product on its right: `"a b" - -c * 2`. -/
def differenceOfProduct : Expr :=
  .binary .sub (.field "a b")
    (.binary .mul (.unary .neg (.field "c")) (.literal (.integer 2)))

/-- A product with a difference in parentheses on its left: `("a b" - -c) * 2`. -/
def productOfDifference : Expr :=
  .binary .mul (.paren (.binary .sub (.field "a b") (.unary .neg (.field "c"))))
    (.literal (.integer 2))

/-- A histogram by days: `date_histogram(@timestamp, 1d)`. -/
def dailyHistogram : Expr :=
  .call "date_histogram" [.field "@timestamp", .literal (.duration "1d")]

theorem parserShaped_field {name : String} (hbackslash : '\\' ∉ name.toList)
    (hword : name ∉ reservedWords) : ParserShaped (.field name) :=
  Grouped.field (.field hbackslash hword)

theorem parserShaped_negatedField : ParserShaped (.unary .neg (.field "c")) :=
  Grouped.unary (parserShaped_field (by decide) (by decide)) (by simp [IsOperand])

theorem parserShaped_two : ParserShaped (.literal (.integer 2)) :=
  Grouped.literal (.integer (by decide))

theorem parserShaped_differenceOfProduct : ParserShaped differenceOfProduct := by
  have hproduct : ParserShaped (.binary .mul (.unary .neg (.field "c")) (.literal (.integer 2))) :=
    Grouped.binary parserShaped_negatedField parserShaped_two (by simp [AtLeast])
      (by simp [AtLeast])
  apply Grouped.binary (parserShaped_field (by decide) (by decide)) hproduct
  · simp [AtLeast]
  · simp [AtLeast, BinaryOp.precedence]

theorem parserShaped_productOfDifference : ParserShaped productOfDifference := by
  have hdifference : ParserShaped (.binary .sub (.field "a b") (.unary .neg (.field "c"))) :=
    Grouped.binary (parserShaped_field (by decide) (by decide)) parserShaped_negatedField
      (by simp [AtLeast]) (by simp [AtLeast])
  apply Grouped.binary (Grouped.paren hdifference) parserShaped_two
  · simp [AtLeast]
  · simp [AtLeast]

theorem parserShaped_dailyHistogram : ParserShaped dailyHistogram := by
  apply Grouped.call (by decide)
  intro arg harg
  rcases List.mem_cons.mp harg with rfl | harg
  · exact parserShaped_field (by decide) (by decide)
  · obtain rfl := List.mem_singleton.mp harg
    exact Grouped.literal (.duration ⟨['1'], ['d'], by decide, by decide, by decide,
      List.all_eq_true.mp rfl, List.all_eq_true.mp rfl⟩)

/-- Two groupings of one chain are two names, also as the dimensions of one query. -/
theorem differenceOfProduct_unambiguous :
    ParserShaped differenceOfProduct ∧ ParserShaped productOfDifference ∧
      differenceOfProduct.script ≠ productOfDifference.script ∧
      [differenceOfProduct, productOfDifference, dailyHistogram].Nodup ∧
      ∀ name, buckets [differenceOfProduct, productOfDifference, dailyHistogram] ≠
        .error (.duplicateAggregation name) := by
  have hdistinct : [differenceOfProduct, productOfDifference, dailyHistogram].Nodup := by
    decide +kernel
  have hshaped : ∀ dimension ∈ [differenceOfProduct, productOfDifference, dailyHistogram],
      ParserShaped dimension := by
    simp [parserShaped_differenceOfProduct, parserShaped_productOfDifference,
      parserShaped_dailyHistogram]
  obtain ⟨hscript, hbuckets⟩ := parserShaped_unambiguous
  refine ⟨parserShaped_differenceOfProduct, parserShaped_productOfDifference, ?_, hdistinct,
    hbuckets _ hshaped hdistinct⟩
  intro h
  have hsame := hscript _ _ parserShaped_differenceOfProduct parserShaped_productOfDifference h
  exact absurd hsame (by decide +kernel)

end Expr

end AggQuery
