import AggQuery.Proofs.Toml.Quoted
import AggQuery.Settings.Store

/-!
# Lines of a settings text

What the reader of a settings text does with the lines that settings are written as: a blank
line is passed over, a line with a key adds an entry to the open table, and a header puts the
open table in its place and opens an empty one.

## Implementation notes

A `Pair` is a line with the value that its text stands for, together with what the reader
needs of both. Each step takes one unit of the reader's fuel.
-/

namespace AggQuery.Toml

open Settings (line header)

/-- A text that is a key as it stands. -/
def IsWord (text : List Char) : Prop := text ≠ [] ∧ text.all isKeyChar = true

instance (text : List Char) : Decidable (IsWord text) :=
  inferInstanceAs (Decidable (_ ∧ _))

/-- A quote at its start makes a value a string. -/
theorem readValue_quoted (fuel budget : Nat) {quote : Char} (text : List Char)
    (hquote : quote = '"' ∨ quote = '\'') :
    readValue (fuel + 1) budget (quote :: text) =
      (Quoted.read (quote :: text)).map fun read => (.string read.1, read.2) := by
  rcases hquote with rfl | rfl <;> simp [readValue]

/-- A line that gives a key a value. -/
structure Pair where
  key : String
  text : List Char
  value : Value
  isWord : IsWord key.toList
  /-- The text stands for the value, whatever lines follow. -/
  reads : ∀ fuel rest, readValue (fuel + 1) nestingLimit (skipSpaces (text ++ '\n' :: rest)) =
    some (value, '\n' :: rest)

namespace Pair

/-- A line that gives a key a string. -/
def string (key text : String) (isWord : IsWord key.toList := by decide) : Pair where
  key := key
  text := Quoted.write text.toList
  value := .string text.toList
  isWord := isWord
  reads fuel rest := by
    have hread := @Quoted.read_write text.toList ('\n' :: rest) (by simp) (by simp)
    obtain ⟨c, body, hbody, hc⟩ := Quoted.write_eq_cons text.toList
    rw [hbody, List.cons_append] at hread ⊢
    have hskip : skipSpaces (c :: (body ++ '\n' :: rest)) = c :: (body ++ '\n' :: rest) := by
      rcases hc with rfl | rfl <;> rfl
    rw [hskip, readValue_quoted fuel nestingLimit _ hc, hread]
    rfl

/-- A line that gives a key a truth value. -/
def boolean (key : String) (value : Bool) (isWord : IsWord key.toList := by decide) : Pair where
  key := key
  text := if value then "true".toList else "false".toList
  value := .boolean value
  isWord := isWord
  reads fuel rest := by cases value <;> rfl

/-- The entry that a line adds to the open table. -/
def entry (pair : Pair) : List Char × Value := (pair.key.toList, pair.value)

/-- The text of a line. -/
def line (pair : Pair) : List Char := Settings.line pair.key pair.text

end Pair

/-- The text of a section. -/
def sectionText (name : String) (pairs : List Pair) : List Char :=
  header name ++ pairs.flatMap Pair.line

section Keys

variable {c d : Char} {word rest : List Char}

theorem ne_of_isKeyChar (hc : isKeyChar c = true) (hd : isKeyChar d = false) : c ≠ d := by
  rintro rfl
  simp [hc] at hd

theorem IsWord.isKeyChar_head (hword : IsWord (c :: word)) : isKeyChar c = true :=
  List.all_eq_true.mp hword.2 c List.mem_cons_self

theorem IsWord.exists_cons (hword : IsWord word) :
    ∃ c rest, word = c :: rest ∧ isKeyChar c = true := by
  obtain ⟨c, rest, rfl⟩ := List.exists_cons_of_ne_nil hword.1
  exact ⟨c, rest, rfl, hword.isKeyChar_head⟩

theorem skipSpaces_cons (hc : isKeyChar c = true) : skipSpaces (c :: rest) = c :: rest := by
  have hblank : c ≠ ' ' := ne_of_isKeyChar hc (by decide)
  have htab : c ≠ '\t' := ne_of_isKeyChar hc (by decide)
  simp [skipSpaces, isSpace, hblank, htab]

/-- A word is a part of a key as far as its characters go. -/
theorem keyPart_word (hword : IsWord word) (hend : ∀ c ∈ rest.head?, isKeyChar c = false) :
    keyPart (word ++ rest) = some (word, rest) := by
  have hline : Quoted.readOnLine (word ++ rest) = none := by
    obtain ⟨c, word, rfl, hc⟩ := hword.exists_cons
    unfold Quoted.readOnLine
    split
    · next heq => exact absurd (List.cons.inj heq).1 (ne_of_isKeyChar hc (by decide))
    · next heq => exact absurd (List.cons.inj heq).1 (ne_of_isKeyChar hc (by decide))
    · rfl
  have hall : ∀ c ∈ word, isKeyChar c = true := List.all_eq_true.mp hword.2
  have htake : rest.takeWhile isKeyChar = [] := by
    cases rest <;> simp_all
  have hdrop : rest.dropWhile isKeyChar = rest := by
    cases rest <;> simp_all
  simp [keyPart, hline, List.takeWhile_append_of_pos hall, List.dropWhile_append_of_pos hall,
    htake, hdrop, hword.1]

/-- A word is a key of one part. -/
theorem key_word (hword : IsWord word) (hend : ∀ c ∈ rest.head?, isKeyChar c = false)
    (hpoint : (skipSpaces rest).head? ≠ some '.') :
    key (word ++ rest) = some ([word], skipSpaces rest) := by
  have hpart : keyPart (skipSpaces (word ++ rest)) = some (word, rest) := by
    obtain ⟨c, word, rfl, hc⟩ := hword.exists_cons
    rw [List.cons_append, skipSpaces_cons hc]
    exact keyPart_word hword hend
  have hparts (fuel : Nat) :
      keyParts (fuel + 1) (word ++ rest) = some ([word], skipSpaces rest) := by
    rw [keyParts, hpart]
    simp only [Option.bind_eq_bind, Option.bind_some]
    split
    · next heq => exact absurd (by rw [heq]; rfl) hpoint
    · rfl
  simp [key, hparts, nestingLimit]

end Keys

namespace Assembly

variable (a : Assembly) (rest : List Char)

/-- The assembly with one more entry in its open table. -/
def push (pair : Pair) : Assembly := { a with current := a.current ++ [pair.entry] }

theorem insert_word {word : List Char} (value : Value)
    (hnew : a.current.lookup word = none) :
    a.insert [word] value = some { a with current := a.current ++ [(word, value)] } := by
  simp [insert, insertDotted, changeAt, hnew]

theorem readPair_line (pair : Pair) (hnew : a.current.lookup pair.key.toList = none) :
    a.readPair (pair.line ++ rest) = some (a.push pair, rest) := by
  have hline : pair.line ++ rest =
      pair.key.toList ++ ' ' :: '=' :: ' ' :: (pair.text ++ '\n' :: rest) := by
    simp [Pair.line, line]
  have hkey : key (pair.key.toList ++ ' ' :: '=' :: ' ' :: (pair.text ++ '\n' :: rest)) =
      some ([pair.key.toList], '=' :: ' ' :: (pair.text ++ '\n' :: rest)) :=
    key_word pair.isWord (by simp [isKeyChar]) (by simp [skipSpaces, isSpace])
  have hvalue (fuel : Nat) :
      readValue (fuel + 1) nestingLimit (skipSpaces (' ' :: (pair.text ++ '\n' :: rest))) =
        some (pair.value, '\n' :: rest) := pair.reads fuel rest
  have hinsert := insert_word a pair.value hnew
  rw [hline, readPair, hkey]
  simp only [Option.bind_eq_bind, Option.bind_some, expectChar, if_pos, hvalue]
  simp [endOfLine, skipSpaces, isSpace, skipComment, lineBreak, hinsert, push, Pair.entry]

theorem readLines_end (fuel : Nat) : readLines (fuel + 1) a [] = a.close := rfl

theorem readLines_blank (fuel : Nat) :
    readLines (fuel + 1) a ('\n' :: rest) = readLines fuel a rest := rfl

theorem readLines_pair (fuel : Nat) (pair : Pair)
    (hnew : a.current.lookup pair.key.toList = none) :
    readLines (fuel + 1) a (pair.line ++ rest) = readLines fuel (a.push pair) rest := by
  have hpair := readPair_line a rest pair hnew
  obtain ⟨c, word, hword, hc⟩ := pair.isWord.exists_cons
  have hline : pair.line ++ rest = c :: (word ++ " = ".toList ++ pair.text ++ '\n' :: rest) := by
    simp [Pair.line, line, hword]
  rw [hline] at hpair ⊢
  have hhash : c ≠ '#' := ne_of_isKeyChar hc (by decide)
  have hbreak : c ≠ '\n' := ne_of_isKeyChar hc (by decide)
  have hreturn : c ≠ '\r' := ne_of_isKeyChar hc (by decide)
  have hbracket : c ≠ '[' := ne_of_isKeyChar hc (by decide)
  rw [readLines, skipSpaces_cons hc]
  simp only [hhash, hbreak, hreturn, hbracket, or_self, if_false, hpair]

theorem readHeader_word {name : String} (hname : IsWord name.toList) :
    a.readHeader (name.toList ++ ']' :: '\n' :: rest) =
      (a.openTable [name.toList]).map fun opened => (opened, rest) := by
  have hkey : key (name.toList ++ ']' :: '\n' :: rest) =
      some ([name.toList], ']' :: '\n' :: rest) :=
    key_word hname (by simp [isKeyChar]) (by simp [skipSpaces, isSpace])
  obtain ⟨c, word, hword, hc⟩ := hname.exists_cons
  have hbracket : c ≠ '[' := ne_of_isKeyChar hc (by decide)
  have hend : endOfLine ('\n' :: rest) = some rest := rfl
  rw [readHeader.eq_def, hkey]
  split
  · next heq =>
      rw [hword] at heq
      exact absurd (List.cons.inj heq).1 hbracket
  · cases hopen : a.openTable [name.toList] <;> simp [expectChar, hend, hopen]

/-- A header opens a table that no line has given anything yet. -/
theorem openTable_word {root : Entries} {name : List Char} (hclose : a.close = some root)
    (hnew : root.lookup name = none) :
    a.openTable [name] = some { root, current := [], path := [name] } := by
  have herase : Entries.erase root name = root := by
    refine List.filter_eq_self.mpr fun entry hentry => ?_
    simp only [ne_eq, decide_not, Bool.not_eq_true', decide_eq_false_iff_not]
    rintro rfl
    simp [List.lookup_eq_none_iff] at hnew
    exact hnew _ _ hentry rfl
  simp [openTable, hclose, changeAt, openTable.entriesAt, hnew, herase]

/-- The next header and the end of a text put the open table behind the others. -/
theorem close_word {root current : Entries} {name : List Char} (hnew : root.lookup name = none) :
    close { root, current, path := [name] } = some (root ++ [(name, .table {} current)]) := by
  simp [close, changeAt, hnew]

/-- Lines with new keys add their entries to the open table in order. -/
theorem readLines_pairs (fuel : Nat) (pairs : List Pair)
    (hkeys : (a.current.map Prod.fst ++ pairs.map fun pair => pair.key.toList).Nodup) :
    readLines (fuel + pairs.length) a (pairs.flatMap Pair.line ++ rest) =
      readLines fuel { a with current := a.current ++ pairs.map Pair.entry } rest := by
  induction pairs generalizing a with
  | nil => simp
  | cons pair pairs ih =>
      have hnew : a.current.lookup pair.key.toList = none := by
        rw [List.lookup_eq_none_iff]
        intro entry hentry
        have hdisjoint := (List.nodup_append.mp hkeys).2.2 _ (List.mem_map_of_mem hentry) _
          List.mem_cons_self
        simpa using Ne.symm hdisjoint
      have hnext : ((a.push pair).current.map Prod.fst ++
          pairs.map fun pair => pair.key.toList).Nodup := by
        simpa [push, Pair.entry] using hkeys
      rw [List.length_cons, ← Nat.add_assoc, List.flatMap_cons, List.append_assoc,
        readLines_pair _ _ _ pair hnew, ih (a.push pair) hnext]
      simp [push]

/-- A section puts the table that was open in its place and leaves its own table open. -/
theorem readLines_section (fuel : Nat) {root : Entries} (hclose : a.close = some root)
    {name : String} (hname : IsWord name.toList) (hnew : root.lookup name.toList = none)
    {pairs : List Pair} (hkeys : (pairs.map fun pair => pair.key.toList).Nodup) :
    readLines (fuel + (pairs.length + 1)) a (sectionText name pairs ++ rest) =
      readLines fuel { root, current := pairs.map Pair.entry, path := [name.toList] } rest := by
  have hheader := readHeader_word a (pairs.flatMap Pair.line ++ rest) hname
  rw [openTable_word a hclose hnew] at hheader
  have hpairs := readLines_pairs { root, current := [], path := [name.toList] } rest fuel pairs
    (by simpa using hkeys)
  have htext : sectionText name pairs ++ rest =
      '[' :: (name.toList ++ ']' :: '\n' :: (pairs.flatMap Pair.line ++ rest)) := by
    simp [sectionText, header]
  rw [htext, ← Nat.add_assoc, readLines]
  simpa [skipSpaces, isSpace, hheader] using hpairs

end Assembly

end AggQuery.Toml
