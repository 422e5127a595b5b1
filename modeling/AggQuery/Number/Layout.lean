import AggQuery.Number.Decimal

/-!
# Layouts of floating-point text

One record holds every decision of a written number: which magnitudes are positional, how
an exponent is marked, how an exact tie is broken, and what is written for the words that
are no finite number. Scripts, documents and messages each have one such record.
-/

namespace AggQuery

/-- How a floating-point number is written. -/
structure Layout where
  /-- The least number of digits before the point that is written positionally. -/
  least : Int
  /-- The greatest number of digits before the point that is written positionally. -/
  greatest : Int
  /-- What stands between `e` and the digits of a positive exponent. -/
  exponentSign : String
  tie : TieRule
  nan : String
  infinity : String
  negativeInfinity : String
deriving DecidableEq, Repr

namespace Layout

/-- Scripts are positional from `1e-4` up to, not including, `1e16`. -/
def script : Layout := ⟨-3, 16, "", .up, "NaN", "inf", "-inf"⟩

/-- Documents are positional from `1e-5` up to, not including, `1e16`, mark a positive
exponent with a plus sign and have no text for words that are no finite number. -/
def document : Layout := ⟨-4, 16, "+", .toEven, "null", "null", "null"⟩

/-- Messages about settings are always positional. -/
def setting : Layout := ⟨-400, 400, "", .up, "NaN", "inf", "-inf"⟩

/-- `count` copies of the digit zero. -/
def zeros (count : Nat) : List Char := List.replicate count '0'

/-- The decimal digits of a natural number. -/
def digitsOf (n : Nat) : List Char := Nat.toDigits 10 n

/-- Positional text: at least one digit stands on either side of the point. -/
def positional (digits : List Char) (exponent : Int) : List Char :=
  let before : Int := digits.length + exponent
  if 0 ≤ exponent then digits ++ zeros exponent.toNat ++ ['.', '0']
  else if 0 < before then digits.take before.toNat ++ '.' :: digits.drop before.toNat
  else '0' :: '.' :: zeros before.natAbs ++ digits

/-- Scientific text: one digit before the point, and no point after a single digit. -/
def scientific (layout : Layout) (digits : List Char) (exponent : Int) : List Char :=
  let power := digits.length + exponent - 1
  let mantissa :=
    match digits with
    | [] => []
    | [d] => [d]
    | d :: rest => d :: '.' :: rest
  let sign := if power < 0 then ['-'] else layout.exponentSign.toList
  mantissa ++ 'e' :: sign ++ digitsOf power.natAbs

/-- The text of the magnitude of a finite word. -/
def magnitude (layout : Layout) (x : Binary64) : List Char :=
  let d := x.shortest layout.tie
  let digits := digitsOf d.digits
  let before : Int := digits.length + d.exponent
  if x.isZero then ['0', '.', '0']
  else if layout.least ≤ before ∧ before ≤ layout.greatest then positional digits d.exponent
  else layout.scientific digits d.exponent

/-- The text of a word. -/
def write (layout : Layout) (x : Binary64) : String :=
  if x.isNaN then layout.nan
  else if !x.isFinite then
    if x.isNegative then layout.negativeInfinity else layout.infinity
  else String.ofList ((if x.isNegative then ['-'] else []) ++ layout.magnitude x)

end Layout

end AggQuery
