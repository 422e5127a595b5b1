import AggQuery.Expr.Script

/-!
# Quoted names and quoted strings

A scanner that starts behind the opening quote of a string finds the string and stops at its
closing quote, whatever follows. So strings can be read off a script (`string_token`): two
expressions of one shape that share a script share their strings.

The name of a field has this property exactly when it holds no backslash (`field_token`), for
in a name only the quotes are marked. A backslash of the name takes the character behind it
along. Where that is the mark of a quote, the token ends at this quote; where it is the
closing quote, the token goes on behind it.

## Implementation notes

`extent` is the run of a scanner on a name in which only the quotes are marked, told without
the text behind the name. `scan_escape_quote` says that it is that run; all else about names
follows from it.
-/

namespace AggQuery

namespace Text.Quoted

variable {quote : Char}

/-- Marking backslashes and then quotes is marking both at once: what the first pass adds is
no quote. -/
theorem escape_escape (hq : quote ≠ '\\') (token : List Char) :
    escape (· == quote) (escape (· == '\\') token) =
      escape (fun c => c == quote || c == '\\') token := by
  induction token with
  | nil => rfl
  | cons c token ih =>
      by_cases hc : c = '\\'
      · subst hc
        simp [escape_cons, Ne.symm hq, ih]
      · by_cases hquote : c = quote
        · simp [escape_cons, hquote, hq, ih]
        · simp [escape_cons, hc, hquote, ih]

/-- What stands behind a token is shorter than the text. -/
theorem length_lt_of_scan {text token rest : List Char}
    (h : scan quote text = some (token, rest)) : rest.length < text.length := by
  fun_induction scan quote text generalizing token with
  | case1 => cases h
  | case2 => cases h
  | case3 c text ih =>
      obtain ⟨found, hfound, heq⟩ := Option.map_eq_some_iff.mp h
      obtain ⟨-, rfl⟩ := Prod.mk.inj heq
      exact Nat.lt_succ_of_lt (Nat.lt_succ_of_lt (ih hfound))
  | case4 =>
      obtain ⟨-, rfl⟩ := Prod.mk.inj (Option.some.inj h)
      exact Nat.lt_succ_self _
  | case5 c text _ _ _ ih =>
      obtain ⟨found, hfound, heq⟩ := Option.map_eq_some_iff.mp h
      obtain ⟨-, rfl⟩ := Prod.mk.inj heq
      exact Nat.lt_succ_of_lt (ih hfound)

/-- How far a scanner gets in a token in which only the quotes are marked. -/
inductive Extent where
  /-- To the closing quote. -/
  | whole (token : List Char)
  /-- To a quote of the token, behind which `left` stands. -/
  | early (token left : List Char)
  /-- Past the closing quote, which is taken for a part of the token. -/
  | late (token : List Char)
deriving DecidableEq, Repr

namespace Extent

/-- The same with a character in front. -/
def cons (c : Char) : Extent → Extent
  | whole token => whole (c :: token)
  | early token left => early (c :: token) left
  | late token => late (c :: token)

/-- What a scanner finds that gets so far, with a text behind the closing quote. -/
def outcome (quote : Char) (rest : List Char) : Extent → Option (List Char × List Char)
  | whole token => some (token, rest)
  | early token left => some (token, escape (· == quote) left ++ quote :: rest)
  | late token => (scan quote rest).map fun (more, rest) => (token ++ more, rest)

theorem outcome_cons (quote c : Char) (rest : List Char) (extent : Extent) :
    (extent.cons c).outcome quote rest =
      (extent.outcome quote rest).map fun (token, rest) => (c :: token, rest) := by
  cases extent with
  | whole token => rfl
  | early token left => rfl
  | late token =>
      rw [cons, outcome, outcome, Option.map_map]
      rfl

/-- The text behind the closing quote is what is left over only where the token ends there. -/
theorem outcome_eq_some_iff {extent : Extent} {token rest : List Char} :
    extent.outcome quote rest = some (token, rest) ↔ extent = whole token := by
  cases extent with
  | whole found => simp [outcome]
  | early found left =>
      have hlonger : escape (· == quote) left ++ quote :: rest ≠ rest := by
        intro heq
        have hlength := congrArg List.length heq
        simp only [List.length_append, List.length_cons] at hlength
        omega
      simp [outcome, hlonger]
  | late found =>
      have hshorter : outcome quote rest (late found) ≠ some (token, rest) := by
        intro heq
        obtain ⟨more, hmore, hpair⟩ := Option.map_eq_some_iff.mp heq
        obtain ⟨-, hrest⟩ := Prod.mk.inj hpair
        have hlength := length_lt_of_scan hmore
        rw [hrest] at hlength
        exact absurd hlength (Nat.lt_irrefl _)
      simp [hshorter]

theorem cons_eq_whole_iff {c : Char} {extent : Extent} {token : List Char} :
    extent.cons c = whole token ↔ ∃ more, extent = whole more ∧ token = c :: more := by
  cases extent <;> simp [cons, eq_comm]

end Extent

/-- How far a scanner gets in a token, from where it starts behind the opening quote. -/
def extent (quote : Char) (token : List Char) : Extent :=
  match token with
  | [] => .whole []
  | '\\' :: [] => .late [quote]
  | '\\' :: c :: rest => if c = quote then .early ['\\'] rest else (extent quote rest).cons c
  | c :: rest => (extent quote rest).cons c

/-- A character that starts neither a lone backslash nor a pair is no backslash. -/
theorem ne_backslash {c : Char} {rest : List Char} (hlone : c = '\\' → rest = [] → False)
    (hpair : ∀ other more, c = '\\' → rest = other :: more → False) : c ≠ '\\' := by
  intro hc
  cases rest with
  | nil => exact hlone hc rfl
  | cons other more => exact hpair other more hc rfl

/-- A token in which only the quotes are marked is scanned as far as `extent` tells. -/
theorem scan_escape_quote (hq : quote ≠ '\\') (token rest : List Char) :
    scan quote (escape (· == quote) token ++ quote :: rest) =
      (extent quote token).outcome quote rest := by
  have hslash : '\\' ≠ quote := hq.symm
  fun_induction extent quote token with
  | case1 => exact scan_quote hq rest
  | case2 => simp [escape, hslash, scan_backslash, Extent.outcome]
  | case3 left =>
      -- The backslash takes the mark of the quote along, so that the quote stands bare.
      have hmarked : escape (· == quote) ('\\' :: quote :: left) ++ quote :: rest =
          '\\' :: '\\' :: quote :: (escape (· == quote) left ++ quote :: rest) := by
        simp [escape_cons, hslash]
      rw [hmarked, scan_backslash, scan_quote hq]
      rfl
  | case4 c more hc ih =>
      have hmarked : escape (· == quote) ('\\' :: c :: more) ++ quote :: rest =
          '\\' :: c :: (escape (· == quote) more ++ quote :: rest) := by
        simp [escape_cons, hslash, hc]
      rw [hmarked, scan_backslash, ih, Extent.outcome_cons]
  | case5 c more hlone hpair ih =>
      have hc := ne_backslash hlone hpair
      rw [escape_cons, Extent.outcome_cons, ← ih]
      by_cases hquote : c = quote
      · simp [hquote, scan_backslash]
      · simp [hquote, scan_plain hc hquote]

example : scan '"' (escape (· == '"') ['a', '\\', '"', 'b', '\\'] ++ ['"', ' ']) =
    some (['a', '\\'], ['b', '\\', '"', ' ']) := rfl

/-- What is found is no longer than the token, as marks are not found. -/
theorem length_le_of_extent {token found : List Char} (h : extent quote token = .whole found) :
    found.length ≤ token.length := by
  fun_induction extent quote token generalizing found with
  | case1 =>
      obtain rfl := Extent.whole.inj h
      exact Nat.le_refl _
  | case2 => cases h
  | case3 => cases h
  | case4 c more hc ih =>
      obtain ⟨front, hfront, rfl⟩ := Extent.cons_eq_whole_iff.mp h
      exact Nat.succ_le_succ (Nat.le_succ_of_le (ih hfront))
  | case5 c more _ _ ih =>
      obtain ⟨front, hfront, rfl⟩ := Extent.cons_eq_whole_iff.mp h
      exact Nat.succ_le_succ (ih hfront)

/-- A token is found as it is exactly when it holds no backslash. -/
theorem extent_eq_whole_self_iff (token : List Char) :
    extent quote token = .whole token ↔ '\\' ∉ token := by
  fun_induction extent quote token with
  | case1 => simp
  | case2 => simp
  | case3 => simp
  | case4 c more hc ih =>
      -- The backslash is dropped, so what is found is too short.
      have hdropped : (extent quote more).cons c ≠ .whole ('\\' :: c :: more) := by
        intro heq
        obtain ⟨front, hfront, htoken⟩ := Extent.cons_eq_whole_iff.mp heq
        have hlength := length_le_of_extent hfront
        rw [← (List.cons.inj htoken).2] at hlength
        exact absurd hlength (Nat.not_succ_le_self _)
      simp [hdropped]
  | case5 c more hlone hpair ih =>
      have hc := (ne_backslash hlone hpair).symm
      rw [List.mem_cons, not_or, ← ih, Extent.cons_eq_whole_iff]
      constructor
      · rintro ⟨front, hfront, htoken⟩
        obtain rfl := (List.cons.inj htoken).2
        exact ⟨hc, hfront⟩
      · rintro ⟨-, hfront⟩
        exact ⟨more, hfront, rfl⟩

end Text.Quoted

open Text.Quoted

namespace Literal

/-- The constant with no text if it is a string. -/
def blankString : Literal → Literal
  | string _ => string ""
  | value => value

theorem eq_or_strings_of_blankString {a b : Literal} (h : a.blankString = b.blankString) :
    a = b ∨ ∃ s other, a = string s ∧ b = string other := by
  cases a <;> cases b <;> simp_all [blankString]

theorem chars_string (s : String) :
    (string s).chars =
      '\'' :: (escape (· == '\'') (escape (· == '\\') s.toList) ++ ['\'']) := by
  rw [chars, enclose, escape_escape (by decide), List.cons_append]

/-- A string is found by a scanner behind its opening quote, whatever follows. -/
theorem scan_string (s : String) (rest : List Char) :
    scan '\'' (escape (· == '\'') (escape (· == '\\') s.toList) ++ ['\''] ++ rest) =
      some (s.toList, rest) := by
  rw [escape_escape (by decide), List.append_assoc]
  exact scan_enclose (by decide) (by decide) (by decide) s.toList rest

theorem string_append_inj {s other : String} {r t : List Char}
    (h : (string s).chars ++ r = (string other).chars ++ t) : s = other ∧ r = t := by
  rw [chars_string, chars_string] at h
  have hbody := congrArg (scan '\'') (List.cons.inj h).2
  have hscan := (scan_string s r).symm.trans (hbody.trans (scan_string other t))
  obtain ⟨hchars, hrest⟩ := Prod.mk.inj (Option.some.inj hscan)
  exact ⟨String.toList_inj.mp hchars, hrest⟩

theorem append_inj_of_blankString {a b : Literal} (hshape : a.blankString = b.blankString)
    {r t : List Char} (h : a.chars ++ r = b.chars ++ t) : a = b ∧ r = t := by
  rcases eq_or_strings_of_blankString hshape with rfl | ⟨s, other, rfl, rfl⟩
  · exact ⟨rfl, List.append_cancel_left h⟩
  · obtain ⟨rfl, hrest⟩ := string_append_inj h
    exact ⟨rfl, hrest⟩

end Literal

namespace Expr

mutual

/-- The expression with no text in its strings. -/
def blankStrings : Expr → Expr
  | .literal value => .literal value.blankString
  | .call name args => .call name (blankArgs args)
  | .binary op lhs rhs => .binary op lhs.blankStrings rhs.blankStrings
  | .unary op operand => .unary op operand.blankStrings
  | .paren inner => .paren inner.blankStrings
  | e => e

/-- The arguments with no text in their strings. -/
def blankArgs : List Expr → List Expr
  | [] => []
  | arg :: args => arg.blankStrings :: blankArgs args

end

mutual

/-- Expressions that differ in their strings only are told apart by their characters,
whatever follows. -/
theorem append_inj_of_blankStrings : ∀ {e f : Expr} {r t : List Char},
    e.blankStrings = f.blankStrings → e.chars ++ r = f.chars ++ t → e = f ∧ r = t
  | .field name, f, r, t, hshape, h => by
      cases f with
      | field other =>
          obtain rfl := field.inj hshape
          exact ⟨rfl, List.append_cancel_left h⟩
      | _ => cases hshape
  | .literal value, f, r, t, hshape, h => by
      cases f with
      | literal other =>
          obtain ⟨rfl, hrest⟩ := Literal.append_inj_of_blankString (literal.inj hshape) h
          exact ⟨rfl, hrest⟩
      | _ => cases hshape
  | .call name args, f, r, t, hshape, h => by
      cases f with
      | call other others =>
          obtain ⟨rfl, hargs⟩ := call.inj hshape
          simp only [chars, List.append_assoc, List.cons_append] at h
          have hbehind := (List.cons.inj (List.append_cancel_left h)).2
          obtain ⟨rfl, hclose⟩ := argChars_inj_of_blankArgs hargs hbehind
          exact ⟨rfl, (List.cons.inj hclose).2⟩
      | _ => cases hshape
  | .binary op lhs rhs, f, r, t, hshape, h => by
      cases f with
      | binary other left right =>
          obtain ⟨rfl, hlhs, hrhs⟩ := binary.inj hshape
          simp only [chars, List.append_assoc, List.cons_append] at h
          obtain ⟨rfl, hsymbol⟩ := append_inj_of_blankStrings hlhs h
          have hbehind := List.append_cancel_left (List.cons.inj hsymbol).2
          obtain ⟨rfl, hrest⟩ := append_inj_of_blankStrings hrhs (List.cons.inj hbehind).2
          exact ⟨rfl, hrest⟩
      | _ => cases hshape
  | .unary op operand, f, r, t, hshape, h => by
      cases f with
      | unary other inner =>
          obtain ⟨rfl, hoperand⟩ := unary.inj hshape
          simp only [chars, List.append_assoc] at h
          obtain ⟨rfl, hrest⟩ := append_inj_of_blankStrings hoperand (List.append_cancel_left h)
          exact ⟨rfl, hrest⟩
      | _ => cases hshape
  | .paren inner, f, r, t, hshape, h => by
      cases f with
      | paren other =>
          simp only [chars, List.append_assoc, List.cons_append] at h
          obtain ⟨rfl, hclose⟩ :=
            append_inj_of_blankStrings (paren.inj hshape) (List.cons.inj h).2
          exact ⟨rfl, (List.cons.inj hclose).2⟩
      | _ => cases hshape
  | .wildcard, f, r, t, hshape, h => by
      cases f with
      | wildcard => exact ⟨rfl, List.append_cancel_left h⟩
      | _ => cases hshape

theorem argChars_inj_of_blankArgs : ∀ {es fs : List Expr} {r t : List Char},
    blankArgs es = blankArgs fs → argChars es ++ r = argChars fs ++ t → es = fs ∧ r = t
  | [], fs, r, t, hshape, h => by
      cases fs with
      | nil => exact ⟨rfl, h⟩
      | cons _ _ => cases hshape
  | e :: es, fs, r, t, hshape, h => by
      cases fs with
      | nil => cases hshape
      | cons f fs =>
          obtain ⟨hfirst, hmore⟩ := List.cons.inj hshape
          simp only [argChars, List.append_assoc] at h
          obtain ⟨rfl, hbehind⟩ := append_inj_of_blankStrings hfirst h
          obtain ⟨rfl, hrest⟩ := moreArgChars_inj_of_blankArgs hmore hbehind
          exact ⟨rfl, hrest⟩

theorem moreArgChars_inj_of_blankArgs : ∀ {es fs : List Expr} {r t : List Char},
    blankArgs es = blankArgs fs → moreArgChars es ++ r = moreArgChars fs ++ t → es = fs ∧ r = t
  | [], fs, r, t, hshape, h => by
      cases fs with
      | nil => exact ⟨rfl, h⟩
      | cons _ _ => cases hshape
  | e :: es, fs, r, t, hshape, h => by
      cases fs with
      | nil => cases hshape
      | cons f fs =>
          obtain ⟨hfirst, hmore⟩ := List.cons.inj hshape
          simp only [moreArgChars, List.append_assoc, List.cons_append] at h
          have hchars := (List.cons.inj (List.cons.inj h).2).2
          obtain ⟨rfl, hbehind⟩ := append_inj_of_blankStrings hfirst hchars
          obtain ⟨rfl, hrest⟩ := moreArgChars_inj_of_blankArgs hmore hbehind
          exact ⟨rfl, hrest⟩

end

/-- Behind its opening quote a string is one token that denotes it, whatever follows; its
backslashes are marked in a first pass and its quotes in a second one. So no string starts
with another one, and an expression is known by its script and its shape without the strings. -/
theorem string_token :
    (∀ s : String, ∃ body, (literal (.string s)).chars = '\'' :: body ∧
      body = escape (· == '\'') (escape (· == '\\') s.toList) ++ ['\''] ∧
      ∀ rest, scan '\'' (body ++ rest) = some (s.toList, rest)) ∧
    (∀ s other : String,
      (literal (.string s)).chars <+: (literal (.string other)).chars ↔ s = other) ∧
    ∀ e f : Expr, e.script = f.script ∧ e.blankStrings = f.blankStrings ↔ e = f := by
  refine ⟨?_, ?_, ?_⟩
  · intro s
    exact ⟨_, Literal.chars_string s, rfl, Literal.scan_string s⟩
  · intro s other
    constructor
    · rintro ⟨rest, hrest⟩
      rw [← List.append_nil (literal (.string other)).chars] at hrest
      exact (Literal.string_append_inj hrest).1
    · rintro rfl
      exact List.prefix_rfl
  · intro e f
    constructor
    · rintro ⟨hscript, hshape⟩
      have hchars : e.chars ++ [] = f.chars ++ [] := by
        rw [← toList_script, hscript, toList_script]
      exact (append_inj_of_blankStrings hshape hchars).1
    · rintro rfl
      exact ⟨rfl, rfl⟩

/-- A field is written as its bare name if that is a plain identifier, and else as a quoted
token. A scanner behind its opening quote gets as far as `extent` tells; it stops at the
closing quote and has found the name, whatever follows, exactly when the name holds no
backslash. -/
theorem field_token (name : String) :
    (isPlainIdentifier name.toList = true ∧ (field name).chars = name.toList) ∨
      isPlainIdentifier name.toList = false ∧
        ∃ body, (field name).chars = '"' :: body ∧ ∀ rest,
          scan '"' (body ++ rest) = (extent '"' name.toList).outcome '"' rest ∧
          (∀ token, scan '"' (body ++ rest) = some (token, rest) ↔
            extent '"' name.toList = .whole token) ∧
          (scan '"' (body ++ rest) = some (name.toList, rest) ↔ '\\' ∉ name.toList) := by
  cases hplain : isPlainIdentifier name.toList with
  | true => exact .inl ⟨rfl, by rw [chars, fieldChars, if_pos hplain]⟩
  | false =>
      refine .inr ⟨rfl, escape (· == '"') name.toList ++ ['"'], ?_, ?_⟩
      · rw [chars, fieldChars, if_neg (by simp [hplain]), enclose, List.cons_append]
      · intro rest
        have hscan : scan '"' (escape (· == '"') name.toList ++ ['"'] ++ rest) =
            (extent '"' name.toList).outcome '"' rest := by
          rw [List.append_assoc]
          exact scan_escape_quote (by decide) name.toList rest
        rw [hscan]
        refine ⟨rfl, ?_, ?_⟩
        · intro token
          exact Extent.outcome_eq_some_iff
        · rw [Extent.outcome_eq_some_iff, extent_eq_whole_self_iff]

/-- The quotes around a backslash do not close, and those around a backslash in front of a
quote close too early: the rest of the name stands behind them as script. -/
theorem backslash_leaves_quotes :
    isPlainIdentifier "\\".toList = false ∧ (field "\\").script = "\"\\\"" ∧
      scan '"' ((field "\\").chars.drop 1) = none ∧
      (field "\\\" || true //").script = "\"\\\\\" || true //\"" ∧
      scan '"' ((field "\\\" || true //").chars.drop 1) =
        some (['\\'], " || true //\"".toList) := by
  decide +kernel

end Expr

end AggQuery
