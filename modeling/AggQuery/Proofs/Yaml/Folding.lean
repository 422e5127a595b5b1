import AggQuery.Proofs.Document.Lexeme
import AggQuery.Yaml.Scalar
import Mathlib.Tactic.SplitIfs

/-!
# Strings of document text as quoted scalars

Document text leaves most characters of a string as they are, and three of these end a line in
a YAML text. `folded?` is the string that a quoted scalar is read as (`scanQuoted_escaped`):
blanks next to a line break are dropped, a break that is no separator is folded, and a document
marker at the start of a line ends the reading. Exactly the strings of which `isKept` holds are
read as they are (`folded?_eq_self_iff`).

## Implementation notes

The scanner takes words and gaps in turn, each in a loop of its own. One induction on the string
(`scansWord_and_scansGap`) covers both loops, with the rest of the scanner behind them. What the
fold drops shows in the length of what is left, so a string that is not kept cannot be read as
itself by accident.
-/

namespace AggQuery.Yaml

open Document (escapeChar)

/-- Line breaks that stand for themselves in a scalar. -/
def isSeparator (c : Char) : Bool := c = '\u2028' || c = '\u2029'

/-- Line breaks that stand in document text as they are. -/
def isRawBreak (c : Char) : Bool := c = '\x85' || isSeparator c

/-- Whether a string starts with a document marker that a blank or a line break follows. -/
def startsMarker (text : List Char) : Bool :=
  match text with
  | '-' :: '-' :: '-' :: c :: _ => c = ' ' || isRawBreak c
  | '.' :: '.' :: '.' :: c :: _ => c = ' ' || isRawBreak c
  | _ => false

namespace Gap

/-- A gap with one more blank. -/
def addBlank (gap : Gap) : Gap :=
  if gap.broken then gap else { gap with blanks := ' ' :: gap.blanks }

/-- A gap with one more line break. -/
def addBreak (gap : Gap) (b : Char) : Gap :=
  if gap.broken then { gap with more := b :: gap.more } else { broken := true, first := some b }

end Gap

/-- What a string is read as behind a gap; `atStart` says whether a line starts here. -/
def foldFrom (gap : Gap) (atStart : Bool) (text : List Char) : Option (List Char) :=
  match text with
  | [] => some gap.text
  | c :: rest =>
    if c = ' ' then foldFrom gap.addBlank false rest
    else if isRawBreak c then
      foldFrom (gap.addBreak (if c = '\x85' then '\n' else c)) true rest
    else if atStart && startsMarker (c :: rest) then none
    else (foldFrom {} false rest).map (gap.text ++ [c] ++ ·)

/-- The string that the text of a string is read as, if it is read at all. -/
def folded? (text : List Char) : Option (List Char) := foldFrom {} false text

section Scanning

variable {c : Char} {rest tail : List Char}

/-- The letter of an escape in document text is an escape of the same character. -/
theorem simpleEscape?_of_escaped? {letter : Char} (h : Lexeme.escaped? letter = some c) :
    simpleEscape? letter = some c ∧ letter ∉ ['x', 'u', 'U'] ∧ isBreak letter = false := by
  unfold Lexeme.escaped? at h
  split_ifs at h with hself hb hf hn hr ht
  · obtain rfl := Option.some.inj h
    rcases hself with rfl | rfl | rfl <;> decide
  all_goals
    obtain rfl := Option.some.inj h
    subst letter
    decide

theorem hexNumber_control {n : Nat} (hn : n < 32) (rest : List Char) :
    hexNumber 4 ('0' :: '0' :: Text.hexDigit (n / 16) :: Text.hexDigit (n % 16) :: rest) =
      some n := by
  have hdigits : ∀ n < 32,
      hexNumber 4 ['0', '0', Text.hexDigit (n / 16), Text.hexDigit (n % 16)] = some n := by
    decide
  exact hdigits n hn

theorem takeBreak_eq_none (cursor : Cursor) (hrest : cursor.rest = c :: rest)
    (hbreak : isBreak c = false) : cursor.takeBreak = none := by
  simp only [isBreak, Bool.or_eq_false_iff, decide_eq_false_iff_not] at hbreak
  obtain ⟨⟨⟨⟨hline, hreturn⟩, hnext⟩, hseparator⟩, hparagraph⟩ := hbreak
  unfold Cursor.takeBreak
  rw [hrest]
  split <;> simp_all

/-- Among the characters that are no controls only few are blanks or line breaks. -/
theorem isBlank_or_isBreak (hcontrol : ¬c.toNat < 32) :
    (isBlank c || isBreak c) = (decide (c = ' ') || isRawBreak c) := by
  have hne (d : Char) (hd : d.toNat < 32) : c ≠ d := by
    rintro rfl
    exact hcontrol hd
  simp [isBlank, isBreak, isRawBreak, isSeparator, hne '\t' (by decide), hne '\n' (by decide),
    hne '\r' (by decide), Bool.or_assoc]

/-- A character that is neither blank nor break is read from its text. -/
theorem quotedWord_escapeChar (fuel : Nat) (acc : List Char) {cursor : Cursor}
    (hrest : cursor.rest = escapeChar c ++ tail) (hblank : c ≠ ' ')
    (hbreak : isRawBreak c = false) :
    ∃ next : Cursor,
      quotedWord (fuel + 1) false acc cursor = quotedWord fuel false (c :: acc) next ∧
        next.rest = tail ∧ 0 < next.column := by
  have hskip (n : Nat) (cursor : Cursor) (hn : 0 < n) : 0 < (cursor.skip n).column :=
    Nat.add_pos_right _ hn
  rcases Lexeme.escapeChar_cases c with ⟨letter, htext, hletter⟩ | ⟨hcontrol, htext⟩ |
    ⟨hquote, hbackslash, hcontrol, htext⟩
  · rw [htext] at hrest
    obtain ⟨hescape, hmark, hend⟩ := simpleEscape?_of_escaped? hletter
    simp only [List.mem_cons, List.not_mem_nil, or_false, not_or] at hmark
    refine ⟨(cursor.skip 1).skip 1, ?_, by simp [Cursor.skip, hrest], hskip 1 _ Nat.one_pos⟩
    have hnone : (cursor.skip 1).takeBreak = none :=
      takeBreak_eq_none _ (by simp [Cursor.skip, hrest]; rfl) hend
    have hscan : scanEscape (cursor.skip 1) = some (c, (cursor.skip 1).skip 1) := by
      simp [scanEscape, Cursor.skip, hrest, hmark, hescape]
    rw [quotedWord, hrest]
    simp [isBlank, isBreak, hnone, hscan]
  · rw [htext] at hrest
    refine ⟨(cursor.skip 1).skip 5, ?_, by simp [Cursor.skip, hrest], hskip 5 _ (by decide)⟩
    have hnone : (cursor.skip 1).takeBreak = none :=
      takeBreak_eq_none _ (by simp [Cursor.skip, hrest]; rfl) (by decide : isBreak 'u' = false)
    have hvalid : ¬((0xD800 ≤ c.toNat ∧ c.toNat ≤ 0xDFFF) ∨ 0x10FFFF < c.toNat) := by omega
    have hscan : scanEscape (cursor.skip 1) = some (c, (cursor.skip 1).skip 5) := by
      simp [scanEscape, Cursor.skip, hrest, hexNumber_control hcontrol, hvalid, Char.ofNat_toNat]
    rw [quotedWord, hrest]
    simp [isBlank, isBreak, hnone, hscan]
  · rw [htext] at hrest
    refine ⟨cursor.skip 1, ?_, by simp [Cursor.skip, hrest], hskip 1 _ Nat.one_pos⟩
    have hgap : (isBlank c || isBreak c) = false := by
      rw [isBlank_or_isBreak hcontrol, hbreak, decide_eq_false hblank]
      rfl
    rw [quotedWord, hrest]
    simp [hgap, hquote, hbackslash]

/-- What a scan of the rest of a scalar gives: the folded string behind what was read before,
and a place behind the closing quote. -/
def Scans (acc tail : List Char) (folded : Option (List Char))
    (outcome : Option (List Char × Cursor)) : Prop :=
  match folded with
  | none => outcome = none
  | some text => ∃ next : Cursor, outcome = some (acc.reverse ++ text, next) ∧
      next.rest = tail ∧ 0 < next.column

/-- The rest of the scanner behind a word. -/
def afterWord (fuel : Nat) (word : List Char × Bool × Cursor) : Option (List Char × Cursor) :=
  match word.2.2.rest with
  | [] => none
  | c :: _ =>
    if c = '"' then some (word.1.reverse, word.2.2.skip 1)
    else (Gap.scan (fuel + 1) 0 { broken := word.2.1 } word.2.2).bind fun scanned =>
      scanQuoted fuel false (scanned.1.text.reverse ++ word.1) scanned.2

theorem scanQuoted_succ (fuel : Nat) (acc : List Char) (cursor : Cursor) :
    scanQuoted (fuel + 1) false acc cursor =
      if cursor.atMarker then none
      else (quotedWord (fuel + 1) false acc cursor).bind (afterWord fuel) := by
  rw [scanQuoted]
  split
  · rfl
  · cases quotedWord (fuel + 1) false acc cursor with
    | none => rfl
    | some word => rfl

/-- The text of a character starts with a backslash or is the character, and gaps are never
escaped. -/
theorem escapeChar_head (c : Char) :
    ((∃ more, escapeChar c = '\\' :: more) ∧ c ≠ ' ' ∧ isRawBreak c = false) ∨
      (escapeChar c = [c] ∧ c ≠ '"' ∧ ¬c.toNat < 32) := by
  have hgap (more : List Char) (htext : escapeChar c = '\\' :: more) :
      c ≠ ' ' ∧ isRawBreak c = false := by
    have hne (d : Char) (hd : escapeChar d = [d]) (hslash : d ≠ '\\') : c ≠ d := by
      rintro rfl
      rw [hd] at htext
      exact hslash (List.cons.inj htext).1
    simp [isRawBreak, isSeparator, hne ' ' rfl (by decide), hne '\x85' rfl (by decide),
      hne '\u2028' rfl (by decide), hne '\u2029' rfl (by decide)]
  rcases Lexeme.escapeChar_cases c with ⟨letter, htext, -⟩ | ⟨-, htext⟩ |
    ⟨hquote, -, hcontrol, htext⟩
  · exact .inl ⟨⟨_, htext⟩, hgap _ htext⟩
  · exact .inl ⟨⟨_, htext⟩, hgap _ htext⟩
  · exact .inr ⟨htext, hquote, hcontrol⟩

/-- A gap follows in the text of a string where the string goes on with one. -/
theorem atGap_escaped (text : List Char) :
    atGap (text.flatMap escapeChar ++ '"' :: tail) =
      text.head?.any fun c => c = ' ' || isRawBreak c := by
  cases text with
  | nil => rfl
  | cons c text =>
      obtain ⟨⟨more, htext⟩, hblank, hbreak⟩ | ⟨htext, -, hcontrol⟩ := escapeChar_head c
      · rw [List.flatMap_cons, htext]
        simp [atGap, hblank, hbreak]
        decide
      · simp [htext, atGap, isBlank_or_isBreak hcontrol]

/-- A character that is not escaped starts the text of a string only where it starts the
string. -/
theorem eq_cons_of_escaped_eq_cons {text more : List Char} {d : Char} (hquote : d ≠ '"')
    (hbackslash : d ≠ '\\') (h : text.flatMap escapeChar ++ '"' :: tail = d :: more) :
    ∃ rest, text = d :: rest ∧ more = rest.flatMap escapeChar ++ '"' :: tail := by
  cases text with
  | nil => exact absurd (List.cons.inj h).1.symm hquote
  | cons c text =>
      rw [List.flatMap_cons] at h
      obtain ⟨⟨more, htext⟩, -, -⟩ | ⟨htext, -, -⟩ := escapeChar_head c
      · rw [htext] at h
        exact absurd (List.cons.inj h).1.symm hbackslash
      · rw [htext] at h
        obtain ⟨rfl, hmore⟩ := List.cons.inj h
        exact ⟨text, rfl, hmore.symm⟩

theorem atMarker_escaped {cursor : Cursor} {text : List Char}
    (hrest : cursor.rest = text.flatMap escapeChar ++ '"' :: tail) :
    cursor.atMarker = (decide (cursor.column = 0) && startsMarker text) := by
  have hthrice {d : Char} {more : List Char} (hquote : d ≠ '"') (hbackslash : d ≠ '\\')
      (h : text.flatMap escapeChar ++ '"' :: tail = d :: d :: d :: more) :
      ∃ rest, text = d :: d :: d :: rest ∧ more = rest.flatMap escapeChar ++ '"' :: tail := by
    obtain ⟨first, rfl, hfirst⟩ := eq_cons_of_escaped_eq_cons hquote hbackslash h
    obtain ⟨second, rfl, hsecond⟩ := eq_cons_of_escaped_eq_cons hquote hbackslash hfirst.symm
    obtain ⟨third, rfl, hthird⟩ := eq_cons_of_escaped_eq_cons hquote hbackslash hsecond.symm
    exact ⟨third, rfl, hthird⟩
  unfold Cursor.atMarker
  congr 1
  rw [hrest]
  split
  · next heq =>
      obtain ⟨rest, rfl, rfl⟩ := hthrice (by decide) (by decide) heq
      rw [atGap_escaped]
      cases rest <;> rfl
  · next heq =>
      obtain ⟨rest, rfl, rfl⟩ := hthrice (by decide) (by decide) heq
      rw [atGap_escaped]
      cases rest <;> rfl
  · next hdash hpoint =>
      unfold startsMarker
      split
      · exact absurd rfl (hdash _)
      · exact absurd rfl (hpoint _)
      · rfl

/-- The loop over a gap takes up a blank. -/
theorem scan_blank (fuel : Nat) (gap : Gap) {cursor : Cursor} (hrest : cursor.rest = ' ' :: rest) :
    Gap.scan (fuel + 1) 0 gap cursor = Gap.scan fuel 0 gap.addBlank (cursor.skip 1) := by
  rw [Gap.scan, hrest]
  cases hbroken : gap.broken <;> simp [isBlank, Gap.addBlank, hbroken]

/-- The loop over a gap takes up a line break and goes on at the start of a line. -/
theorem scan_break (fuel : Nat) (gap : Gap) {cursor : Cursor} (hrest : cursor.rest = c :: rest)
    (hbreak : isRawBreak c = true) :
    Gap.scan (fuel + 1) 0 gap cursor =
      Gap.scan fuel 0 (gap.addBreak (if c = '\x85' then '\n' else c)) (cursor.nextLine 1) := by
  have hc : c = '\x85' ∨ c = '\u2028' ∨ c = '\u2029' := by
    simpa [isRawBreak, isSeparator] using hbreak
  rw [Gap.scan, hrest]
  cases hbroken : gap.broken <;> rcases hc with rfl | rfl | rfl <;>
    simp [isBlank, Gap.addBreak, hbroken, Cursor.takeBreak, hrest]

/-- The loop over a gap ends at any other character. -/
theorem scan_end (fuel : Nat) (gap : Gap) {cursor : Cursor} (hrest : cursor.rest = c :: rest)
    (hgap : (isBlank c || isBreak c) = false) :
    Gap.scan (fuel + 1) 0 gap cursor = some (gap, cursor) := by
  obtain ⟨hblank, hbreak⟩ := Bool.or_eq_false_iff.mp hgap
  rw [Gap.scan, hrest]
  simp [hblank, takeBreak_eq_none _ hrest hbreak]

/-- The characters of gaps are not escaped. -/
theorem escaped_of_gap (hgap : c = ' ' ∨ isRawBreak c = true) :
    escapeChar c = [c] ∧ (isBlank c || isBreak c) = true ∧ c ≠ '"' := by
  obtain ⟨-, hblank, hbreak⟩ | ⟨htext, hquote, hcontrol⟩ := escapeChar_head c
  · simp [hblank, hbreak] at hgap
  · refine ⟨htext, ?_, hquote⟩
    rw [isBlank_or_isBreak hcontrol]
    simpa using hgap

theorem quotedWord_gap (fuel : Nat) (acc : List Char) {cursor : Cursor}
    (hrest : cursor.rest = c :: rest) (hgap : (isBlank c || isBreak c) = true) :
    quotedWord (fuel + 1) false acc cursor = some (acc, false, cursor) := by
  rw [quotedWord, hrest]
  simp only [hgap, if_true]

/-- A character that is neither blank nor break ends a gap. -/
theorem exists_head_of_word (hblank : c ≠ ' ') (hbreak : isRawBreak c = false) :
    ∃ d more, escapeChar c = d :: more ∧ (isBlank d || isBreak d) = false := by
  obtain ⟨⟨more, htext⟩, -, -⟩ | ⟨htext, -, hcontrol⟩ := escapeChar_head c
  · exact ⟨_, _, htext, by decide⟩
  · refine ⟨_, _, htext, ?_⟩
    rw [isBlank_or_isBreak hcontrol, hbreak, decide_eq_false hblank]
    rfl

/-- The closing quote ends the scalar. -/
theorem afterWord_quote (fuel : Nat) (acc : List Char) {cursor : Cursor}
    (hrest : cursor.rest = '"' :: tail) :
    Scans acc tail (some []) (afterWord fuel (acc, false, cursor)) := by
  refine ⟨cursor.skip 1, by simp [afterWord, hrest], by simp [Cursor.skip, hrest], ?_⟩
  exact Nat.add_pos_right _ Nat.one_pos

theorem quotedWord_quote (fuel : Nat) (acc : List Char) {cursor : Cursor}
    (hrest : cursor.rest = '"' :: tail) :
    quotedWord (fuel + 1) false acc cursor = some (acc, false, cursor) := by
  rw [quotedWord, hrest]
  simp [isBlank, isBreak]

/-- What was read before may count as part of the fold. -/
theorem Scans.behind {acc before : List Char} {folded : Option (List Char)}
    {outcome : Option (List Char × Cursor)}
    (h : Scans (before.reverse ++ acc) tail folded outcome) :
    Scans acc tail (folded.map (before ++ ·)) outcome := by
  cases folded with
  | none => exact h
  | some text => simpa [Scans] using h

theorem foldFrom_blank (gap : Gap) (atStart : Bool) (text : List Char) :
    foldFrom gap atStart (' ' :: text) = foldFrom gap.addBlank false text := by
  rw [foldFrom, if_pos rfl]

theorem foldFrom_break (gap : Gap) (atStart : Bool) (text : List Char)
    (hbreak : isRawBreak c = true) : foldFrom gap atStart (c :: text) =
      foldFrom (gap.addBreak (if c = '\x85' then '\n' else c)) true text := by
  have hblank : c ≠ ' ' := by
    rintro rfl
    cases hbreak
  rw [foldFrom, if_neg hblank, if_pos hbreak]

theorem foldFrom_word (gap : Gap) (atStart : Bool) (text : List Char) (hblank : c ≠ ' ')
    (hbreak : isRawBreak c = false) : foldFrom gap atStart (c :: text) =
      if atStart && startsMarker (c :: text) then none
      else (folded? text).map (gap.text ++ [c] ++ ·) := by
  rw [foldFrom, if_neg hblank, if_neg (by simp [hbreak])]
  simp [folded?]

/-- The rest of a scalar is read as its fold from inside a word. -/
def ScansWord (text tail : List Char) : Prop :=
  ∀ (words gaps : Nat) (acc : List Char) (cursor : Cursor),
    cursor.rest = text.flatMap escapeChar ++ '"' :: tail → 0 < cursor.column →
    text.length < words → text.length < gaps →
      Scans acc tail (folded? text) ((quotedWord words false acc cursor).bind (afterWord gaps))

/-- The rest of a scalar is read as its fold from inside a gap. -/
def ScansGap (text tail : List Char) : Prop :=
  ∀ (gap : Gap) (scans words : Nat) (acc : List Char) (cursor : Cursor),
    cursor.rest = text.flatMap escapeChar ++ '"' :: tail →
    text.length < scans → text.length < words →
      Scans acc tail (foldFrom gap (decide (cursor.column = 0)) text)
        ((Gap.scan scans 0 gap cursor).bind fun scanned =>
          scanQuoted words false (scanned.1.text.reverse ++ acc) scanned.2)

theorem scansWord_nil (tail : List Char) : ScansWord [] tail := by
  intro words gaps acc cursor hrest _ hwords _
  obtain ⟨words, rfl⟩ := Nat.exists_eq_add_one.mpr hwords
  rw [quotedWord_quote words acc hrest]
  exact afterWord_quote gaps acc hrest

theorem scansGap_nil (tail : List Char) : ScansGap [] tail := by
  intro gap scans words acc cursor hrest hscans hwords
  obtain ⟨scans, rfl⟩ := Nat.exists_eq_add_one.mpr hscans
  obtain ⟨words, rfl⟩ := Nat.exists_eq_add_one.mpr hwords
  have hend := afterWord_quote words (gap.text.reverse ++ acc) hrest
  rw [scan_end scans gap hrest (by decide), Option.bind_some, scanQuoted_succ,
    atMarker_escaped hrest, quotedWord_quote words _ hrest]
  simpa [foldFrom, startsMarker] using hend.behind

/-- A gap goes on with a blank or a break; at any other character a word starts, unless a
document marker stands there. -/
theorem scansGap_cons {text : List Char} (c : Char) (hword : ScansWord text tail)
    (hgap : ScansGap text tail) : ScansGap (c :: text) tail := by
  intro gap scans words acc cursor hrest hscans hwords
  obtain ⟨scans, rfl⟩ := Nat.exists_eq_add_one.mpr (Nat.zero_lt_of_lt hscans)
  rw [List.length_cons] at hscans hwords
  rw [List.flatMap_cons, List.append_assoc] at hrest
  by_cases hblank : c = ' '
  · subst hblank
    have hnext := hgap gap.addBlank scans words acc (cursor.skip 1)
      (by simp [Cursor.skip, hrest, escapeChar]) (by omega) (by omega)
    rw [scan_blank scans gap hrest, foldFrom_blank]
    simpa [Cursor.skip] using hnext
  cases hbreak : isRawBreak c with
  | true =>
      rw [(escaped_of_gap (.inr hbreak)).1] at hrest
      have hnext := hgap (gap.addBreak (if c = '\x85' then '\n' else c)) scans words acc
        (cursor.nextLine 1) (by simp [Cursor.nextLine, hrest]) (by omega) (by omega)
      rw [scan_break scans gap hrest hbreak, foldFrom_break gap _ _ hbreak]
      exact hnext
  | false =>
      obtain ⟨d, more, htext, hd⟩ := exists_head_of_word hblank hbreak
      have hhead : cursor.rest = d :: (more ++ (text.flatMap escapeChar ++ '"' :: tail)) := by
        rw [hrest, htext, List.cons_append]
      obtain ⟨words, rfl⟩ := Nat.exists_eq_add_one.mpr (Nat.zero_lt_of_lt hwords)
      obtain ⟨next, hstep, hnext, hcolumn⟩ := quotedWord_escapeChar words
        (gap.text.reverse ++ acc) hrest hblank hbreak
      rw [scan_end scans gap hhead hd, Option.bind_some, scanQuoted_succ,
        @atMarker_escaped tail _ (c :: text) (by simpa using hrest),
        foldFrom_word gap _ _ hblank hbreak]
      split
      · rfl
      · have hrun := hword words words (c :: (gap.text.reverse ++ acc)) next hnext hcolumn
          (by omega) (by omega)
        rw [hstep]
        exact @Scans.behind _ _ (gap.text ++ [c]) _ _ (by simpa using hrun)

/-- A word ends at a blank or a break and goes on with any other character. -/
theorem scansWord_cons {text : List Char} {c : Char} (hword : ScansWord text tail)
    (hgap : ScansGap (c :: text) tail) : ScansWord (c :: text) tail := by
  intro words gaps acc cursor hrest hcolumn hwords hgaps
  obtain ⟨words, rfl⟩ := Nat.exists_eq_add_one.mpr (Nat.zero_lt_of_lt hwords)
  by_cases hgapChar : c = ' ' ∨ isRawBreak c = true
  · have hscan := hgap {} (gaps + 1) gaps acc cursor hrest (by omega) hgaps
    rw [decide_eq_false (by omega)] at hscan
    obtain ⟨hhead, hc, hquote⟩ := escaped_of_gap hgapChar
    rw [List.flatMap_cons, hhead] at hrest
    rw [quotedWord_gap words acc hrest hc, Option.bind_some, afterWord, hrest]
    simpa [hquote, folded?] using hscan
  · obtain ⟨hblank, hbreak⟩ := not_or.mp hgapChar
    rw [Bool.not_eq_true] at hbreak
    rw [List.length_cons] at hwords hgaps
    rw [List.flatMap_cons, List.append_assoc] at hrest
    obtain ⟨next, hstep, hnext, hcolumn⟩ := quotedWord_escapeChar words acc hrest hblank hbreak
    have hrun := hword words gaps (c :: acc) next hnext hcolumn (by omega) (by omega)
    rw [hstep, folded?, foldFrom_word _ _ _ hblank hbreak]
    exact @Scans.behind _ _ [c] _ _ hrun

theorem scansWord_and_scansGap (text tail : List Char) :
    ScansWord text tail ∧ ScansGap text tail := by
  induction text with
  | nil => exact ⟨scansWord_nil tail, scansGap_nil tail⟩
  | cons c text ih =>
      have hgap := scansGap_cons c ih.1 ih.2
      exact ⟨scansWord_cons ih.1 hgap, hgap⟩

/-- The text of a string is read as its fold, up to behind the closing quote. -/
theorem scanQuoted_escaped (text : List Char) {fuel : Nat} (hfuel : text.length + 1 < fuel)
    {cursor : Cursor} (hrest : cursor.rest = text.flatMap escapeChar ++ '"' :: tail)
    (hcolumn : 0 < cursor.column) :
    Scans [] tail (folded? text) (scanQuoted fuel false [] cursor) := by
  obtain ⟨fuel, rfl⟩ := Nat.exists_eq_add_one.mpr (Nat.zero_lt_of_lt hfuel)
  have hword := (scansWord_and_scansGap text tail).1
  rw [scanQuoted_succ, atMarker_escaped hrest, decide_eq_false (by omega)]
  exact hword (fuel + 1) fuel [] cursor hrest hcolumn (by omega) (by omega)

end Scanning

section Kept

/-- Whether a string is read as it is behind a given character: it has no break that is folded,
no blank next to a separator, and no document marker behind one. -/
def keptBehind (previous : Option Char) (text : List Char) : Bool :=
  match text with
  | [] => true
  | c :: rest =>
    c ≠ '\x85' && !(c = ' ' && previous.any isSeparator) &&
      !(isSeparator c && previous = some ' ') &&
      !(previous.any isSeparator && startsMarker (c :: rest)) && keptBehind (some c) rest

/-- Whether a string is read as it is. -/
def isKept (text : List Char) : Bool := keptBehind none text

namespace Gap

/-- The number of characters that a gap has taken up, without blanks that are dropped. -/
def size (gap : Gap) : Nat := if gap.broken then gap.more.length + 1 else gap.blanks.length

theorem length_text_le (gap : Gap) : gap.text.length ≤ gap.size := by
  unfold text size
  split
  · split
    · split <;> simp
    · simp
    · simp
  · simp

theorem size_addBlank_le (gap : Gap) : gap.addBlank.size ≤ gap.size + 1 := by
  unfold addBlank size
  cases hbroken : gap.broken <;> simp [hbroken]

theorem size_addBreak_le (gap : Gap) (b : Char) : (gap.addBreak b).size ≤ gap.size + 1 := by
  unfold addBreak size
  cases gap.broken <;> simp

end Gap

/-- A fold is no longer than the string with the gap before it. -/
theorem length_foldFrom_le {gap : Gap} {atStart : Bool} {text folded : List Char}
    (h : foldFrom gap atStart text = some folded) :
    folded.length ≤ gap.size + text.length := by
  induction text generalizing gap atStart folded with
  | nil =>
      obtain rfl := Option.some.inj h
      exact gap.length_text_le
  | cons c text ih =>
      rw [List.length_cons]
      by_cases hblank : c = ' '
      · subst hblank
        rw [foldFrom_blank] at h
        have hle := ih h
        have hsize := gap.size_addBlank_le
        omega
      cases hbreak : isRawBreak c with
      | true =>
          rw [foldFrom_break _ _ _ hbreak] at h
          have hle := ih h
          have hsize := gap.size_addBreak_le (if c = '\x85' then '\n' else c)
          omega
      | false =>
          rw [foldFrom_word _ _ _ hblank hbreak] at h
          split at h
          · cases h
          · obtain ⟨more, hmore, rfl⟩ := Option.map_eq_some_iff.mp h
            have hle : more.length ≤ 0 + text.length := ih hmore
            have htext := gap.length_text_le
            simp only [List.length_append, List.length_singleton]
            omega

/-- A gap in which no next-line character stands. -/
def Gap.HasNoNextLine (gap : Gap) : Prop :=
  '\x85' ∉ gap.blanks ∧ gap.first ≠ some '\x85' ∧ '\x85' ∉ gap.more

namespace Gap

variable {gap : Gap}

theorem HasNoNextLine.text (h : gap.HasNoNextLine) : '\x85' ∉ gap.text := by
  obtain ⟨hblanks, hfirst, hmore⟩ := h
  unfold Gap.text
  split
  · split
    · split
      · simp
      · simpa using hmore
    · next b _ heq =>
        simp only [List.mem_cons, List.mem_reverse, not_or]
        exact ⟨fun hb => hfirst (by rw [heq, hb]), hmore⟩
    · simpa using hmore
  · simpa using hblanks

theorem HasNoNextLine.addBlank (h : gap.HasNoNextLine) : gap.addBlank.HasNoNextLine := by
  unfold Gap.addBlank
  split
  · exact h
  · exact ⟨by simpa using h.1, h.2⟩

theorem HasNoNextLine.addBreak (h : gap.HasNoNextLine) {b : Char} (hb : b ≠ '\x85') :
    (gap.addBreak b).HasNoNextLine := by
  unfold Gap.addBreak
  split
  · exact ⟨h.1, h.2.1, by simpa using ⟨hb.symm, h.2.2⟩⟩
  · exact ⟨by simp, by simpa using hb, by simp⟩

end Gap

/-- A next-line character is always folded. -/
theorem not_mem_foldFrom {gap : Gap} {atStart : Bool} {text folded : List Char}
    (hgap : gap.HasNoNextLine) (h : foldFrom gap atStart text = some folded) :
    '\x85' ∉ folded := by
  induction text generalizing gap atStart folded with
  | nil =>
      obtain rfl := Option.some.inj h
      exact hgap.text
  | cons c text ih =>
      by_cases hblank : c = ' '
      · subst hblank
        rw [foldFrom_blank] at h
        exact ih hgap.addBlank h
      cases hbreak : isRawBreak c with
      | true =>
          rw [foldFrom_break _ _ _ hbreak] at h
          refine ih (hgap.addBreak ?_) h
          split
          · decide
          · assumption
      | false =>
          rw [foldFrom_word _ _ _ hblank hbreak] at h
          split at h
          · cases h
          · obtain ⟨more, hmore, rfl⟩ := Option.map_eq_some_iff.mp h
            have hnext : '\x85' ∉ more := ih ⟨by simp, by simp, by simp⟩ hmore
            have hc : c ≠ '\x85' := by
              rintro rfl
              cases hbreak
            simpa [hgap.text, hnext] using hc.symm

/-- A gap that has lost nothing so far, behind a character of the string. -/
inductive Pending : Gap → Option Char → Prop
  | word {previous : Option Char} (hblank : previous ≠ some ' ')
      (hbreak : previous.any isSeparator = false) : Pending {} previous
  | blanks {blanks : List Char} (hne : blanks ≠ []) (hnext : '\x85' ∉ blanks) :
      Pending { blanks } (some ' ')
  | breaks {b c : Char} {more : List Char} (hb : isSeparator b = true)
      (hnext : '\x85' ∉ more) (hc : isSeparator c = true) :
      Pending { broken := true, first := some b, more } (some c)

namespace Pending

variable {gap : Gap} {previous : Option Char}

theorem hasNoNextLine (h : Pending gap previous) : gap.HasNoNextLine := by
  cases h with
  | word => exact ⟨by simp, by simp, by simp⟩
  | blanks _ hnext => exact ⟨hnext, by simp, by simp⟩
  | breaks hb hnext _ =>
      refine ⟨by simp, ?_, hnext⟩
      rintro ⟨⟩
      cases hb

theorem text_breaks {b : Char} {more : List Char} (hb : isSeparator b = true) :
    Gap.text { broken := true, first := some b, more } = b :: more.reverse := by
  have hline : b ≠ '\n' := by
    rintro rfl
    cases hb
  simp [Gap.text]

/-- A blank behind a break is dropped. -/
theorem size_addBlank_le (h : Pending gap previous) (hprevious : previous.any isSeparator = true) :
    gap.addBlank.size ≤ gap.text.length := by
  cases h with
  | word _ hbreak => simp [hbreak] at hprevious
  | blanks => cases hprevious
  | breaks hb _ _ => simp [Gap.addBlank, Gap.size, text_breaks hb]

/-- A break behind blanks drops them. -/
theorem size_addBreak_le (h : Pending gap (some ' ')) (c : Char) :
    (gap.addBreak c).size ≤ gap.text.length := by
  cases h with
  | word hblank => exact absurd rfl hblank
  | blanks hne =>
      have hlength := List.length_pos_iff.mpr hne
      change 1 ≤ (List.reverse _).length
      rw [List.length_reverse]
      exact hlength
  | breaks _ _ hc => cases hc

theorem addBlank (h : Pending gap previous) (hprevious : previous.any isSeparator = false) :
    Pending gap.addBlank (some ' ') ∧ gap.addBlank.text = gap.text ++ [' '] := by
  cases h with
  | word => exact ⟨.blanks (by simp) (by simp), rfl⟩
  | blanks _ hnext =>
      exact ⟨.blanks (by simp) (by simpa using hnext), by simp [Gap.text, Gap.addBlank]⟩
  | breaks _ _ hc => simp [hc] at hprevious

theorem addBreak (h : Pending gap previous) (hprevious : previous ≠ some ' ') {c : Char}
    (hc : isSeparator c = true) :
    Pending (gap.addBreak c) (some c) ∧ (gap.addBreak c).text = gap.text ++ [c] := by
  have hnext : c ≠ '\x85' := by
    rintro rfl
    cases hc
  cases h with
  | word => exact ⟨.breaks hc (by simp) hc, text_breaks hc⟩
  | blanks => exact absurd rfl hprevious
  | breaks hb hmore _ =>
      refine ⟨.breaks hb (by simpa using ⟨hnext.symm, hmore⟩) hc, ?_⟩
      simp [Gap.addBreak, text_breaks hb]

end Pending

/-- A string is kept behind a gap that has lost nothing just in case it reads as itself. -/
theorem foldFrom_eq_append_iff {gap : Gap} {previous : Option Char} (h : Pending gap previous)
    (text : List Char) :
    foldFrom gap (previous.any isSeparator) text = some (gap.text ++ text) ↔
      keptBehind previous text = true := by
  induction text generalizing gap previous with
  | nil => simp [foldFrom, keptBehind]
  | cons c text ih =>
      have hlossy {lost : Gap} {atStart : Bool} (hlost : lost.size ≤ gap.text.length) :
          foldFrom lost atStart text ≠ some (gap.text ++ c :: text) := by
        intro hfold
        have hle := length_foldFrom_le hfold
        simp only [List.length_append, List.length_cons] at hle
        omega
      by_cases hblank : c = ' '
      · subst hblank
        rw [foldFrom_blank]
        cases hprevious : previous.any isSeparator with
        | false =>
            obtain ⟨hnext, htext⟩ := h.addBlank hprevious
            have hiff := ih hnext
            rw [htext] at hiff
            simpa [keptBehind, hprevious, isSeparator] using hiff
        | true =>
            exact iff_of_false (hlossy (h.size_addBlank_le hprevious))
              (by simp [keptBehind, hprevious])
      by_cases hnext : c = '\x85'
      · subst hnext
        refine iff_of_false (fun hfold => ?_) (by simp [keptBehind])
        exact not_mem_foldFrom h.hasNoNextLine hfold (by simp)
      cases hseparator : isSeparator c with
      | true =>
          rw [foldFrom_break _ _ _ (by simp [isRawBreak, hseparator]), if_neg hnext]
          by_cases hprevious : previous = some ' '
          · subst hprevious
            exact iff_of_false (hlossy (h.size_addBreak_le c)) (by simp [keptBehind, hseparator])
          · obtain ⟨hpending, htext⟩ := h.addBreak hprevious hseparator
            have hiff := ih hpending
            have hmarker : startsMarker (c :: text) = false := by
              unfold startsMarker
              split
              · next heq =>
                  cases heq
                  cases hseparator
              · next heq =>
                  cases heq
                  cases hseparator
              · rfl
            rw [htext] at hiff
            simpa [keptBehind, hblank, hnext, hprevious, hseparator, hmarker] using hiff
      | false =>
          have hbreak : isRawBreak c = false := by simp [isRawBreak, hnext, hseparator]
          have hiff := ih (.word (by simpa using hblank) (by simpa using hseparator) :
            Pending {} (some c))
          have hplain : (some c).any isSeparator = false := by simpa using hseparator
          rw [hplain] at hiff
          change folded? text = some text ↔ _ at hiff
          rw [foldFrom_word _ _ _ hblank hbreak]
          have hself : (folded? text).map (gap.text ++ [c] ++ ·) = some (gap.text ++ c :: text) ↔
              folded? text = some text := by
            cases folded? text <;> simp
          cases hmarker : previous.any isSeparator && startsMarker (c :: text) with
          | true => simp [keptBehind, hmarker]
          | false =>
              rw [if_neg (by simp), hself]
              simpa [keptBehind, hblank, hnext, hseparator, hmarker] using hiff

/-- The strings that are kept are those that are read as they are. -/
theorem folded?_eq_self_iff (text : List Char) : folded? text = some text ↔ isKept text = true :=
  foldFrom_eq_append_iff (@Pending.word none (by simp) rfl) text

end Kept

end AggQuery.Yaml
