/-!
# Quoted tokens

A quoted token stands between two equal quotes, and a backslash makes the character after
it part of the token. `enclose` writes a token with a backslash in front of the characters
that a writer marks; `scan` reads one.

## Implementation notes

A writer that marks the quote and the backslash is undone by `scan`, whatever text follows
(`scan_enclose`). One that does not mark the backslash gives no such guarantee.
-/

namespace AggQuery.Text.Quoted

/-- The characters of a token, each marked one behind a backslash. -/
def escape (marked : Char → Bool) (token : List Char) : List Char :=
  token.flatMap fun c => if marked c then ['\\', c] else [c]

/-- A token between quotes. -/
def enclose (quote : Char) (marked : Char → Bool) (token : List Char) : List Char :=
  quote :: escape marked token ++ [quote]

/-- The token that starts after its opening quote, and the text after its closing quote. -/
def scan (quote : Char) (text : List Char) : Option (List Char × List Char) :=
  match text with
  | [] => none
  | '\\' :: [] => none
  | '\\' :: c :: rest => (scan quote rest).map fun (token, rest) => (c :: token, rest)
  | c :: rest =>
    if c = quote then some ([], rest)
    else (scan quote rest).map fun (token, rest) => (c :: token, rest)

theorem escape_cons (marked : Char → Bool) (c : Char) (token : List Char) :
    escape marked (c :: token) = (if marked c then ['\\', c] else [c]) ++ escape marked token :=
  rfl

theorem scan_backslash (quote c : Char) (rest : List Char) :
    scan quote ('\\' :: c :: rest) =
      (scan quote rest).map fun (token, rest) => (c :: token, rest) := rfl

theorem scan_quote {quote : Char} (hq : quote ≠ '\\') (rest : List Char) :
    scan quote (quote :: rest) = some ([], rest) := by
  unfold scan
  split <;> simp_all

theorem scan_plain {quote c : Char} (hb : c ≠ '\\') (hq : c ≠ quote) (rest : List Char) :
    scan quote (c :: rest) = (scan quote rest).map fun (token, rest) => (c :: token, rest) := by
  conv => lhs; unfold scan
  split <;> simp_all

/-- A token written with the quote and the backslash marked reads back, and the scanner
stops right behind it. -/
theorem scan_enclose {quote : Char} (hq : quote ≠ '\\') {marked : Char → Bool}
    (hm : marked quote = true) (hb : marked '\\' = true) (token rest : List Char) :
    scan quote (escape marked token ++ quote :: rest) = some (token, rest) := by
  induction token with
  | nil => simpa [escape] using scan_quote hq rest
  | cons c token ih =>
      rw [escape_cons]
      by_cases h : marked c = true
      · simp [h, scan_backslash, ih]
      · have hc : c ≠ quote := fun e => h (e ▸ hm)
        have hc' : c ≠ '\\' := fun e => h (e ▸ hb)
        simp [h, scan_plain hc' hc, ih]

end AggQuery.Text.Quoted
