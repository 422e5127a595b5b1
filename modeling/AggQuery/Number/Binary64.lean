/-!
# Binary64 words

A floating-point literal is a 64-bit word in the usual layout: one sign bit, eleven
exponent bits and fifty-two fraction bits. A finite word denotes
`± significand * 2 ^ scale`. Equality follows the number and not the word: a word that is
no number equals nothing, and the two zeros are equal.

## Implementation notes

All arithmetic is exact, on natural numbers, so that every definition evaluates in the
kernel; powers of two are shifts. `ofRatio` rounds once, to the nearest word and on a tie
to the even one.
-/

namespace AggQuery

/-- A floating-point number, given by its 64-bit word. -/
structure Binary64 where
  bits : UInt64
deriving DecidableEq, Inhabited, Repr

namespace Binary64

/-- The value of the word as a natural number. -/
def word (x : Binary64) : Nat := x.bits.toNat

def isNegative (x : Binary64) : Bool := 1 <<< 63 ≤ x.word

/-- The eleven exponent bits. -/
def exponentField (x : Binary64) : Nat := (x.word >>> 52) % 2048

/-- The fifty-two fraction bits. -/
def fraction (x : Binary64) : Nat := x.word % (1 <<< 52)

def isFinite (x : Binary64) : Bool := x.exponentField != 2047

def isNaN (x : Binary64) : Bool := x.exponentField == 2047 && x.fraction != 0

def isZero (x : Binary64) : Bool := x.exponentField == 0 && x.fraction == 0

/-- The significand of a finite word, with the hidden bit of a normal one. -/
def significand (x : Binary64) : Nat :=
  if x.exponentField = 0 then x.fraction else x.fraction + (1 <<< 52)

/-- The power of two that the significand is multiplied by. -/
def scale (x : Binary64) : Int := (max x.exponentField 1 : Nat) - 1075

/-- Numeric equality: no word equals a word that is no number, and both zeros are equal. -/
def equals (x y : Binary64) : Bool :=
  if x.isNaN || y.isNaN then false
  else if x.isZero && y.isZero then true
  else x.bits == y.bits

/-- The word with the given sign and the given lower sixty-three bits. -/
def ofMagnitude (negative : Bool) (magnitude : Nat) : Binary64 :=
  ⟨UInt64.ofNat (magnitude + if negative then 1 <<< 63 else 0)⟩

def infinity (negative : Bool) : Binary64 := ofMagnitude negative (2047 <<< 52)

def zero (negative : Bool) : Binary64 := ofMagnitude negative 0

/-- `num / (den * 2 ^ e)` rounded to a natural number, a half going to the even one. -/
def roundScaled (num den : Nat) (e : Int) : Nat :=
  let n := if e < 0 then num <<< e.natAbs else num
  let d := if e < 0 then den else den <<< e.natAbs
  let q := n / d
  let r := n % d
  if d < 2 * r ∨ (d = 2 * r ∧ q % 2 = 1) then q + 1 else q

/-- The power of two that brings `num / den` below `2 ^ 53` and, unless it is the least
one, not below `2 ^ 52`. -/
def scaleFor (num den : Nat) : Int :=
  let e : Int := (Nat.log2 num : Int) - Nat.log2 den - 53
  let large :=
    if e < 0 then decide (den <<< 53 ≤ num <<< e.natAbs)
    else decide (den <<< e.natAbs <<< 53 ≤ num)
  max (if large then e + 1 else e) (-1074)

/-- The word nearest to `± num / den`; a tie goes to the even word, and what is too large
for a finite word becomes infinite. -/
def ofRatio (negative : Bool) (num den : Nat) : Binary64 :=
  if num = 0 then zero negative
  else
    let e := scaleFor num den
    let magnitude := ((e + 1074).toNat <<< 52) + roundScaled num den e
    if magnitude < 2047 <<< 52 then ofMagnitude negative magnitude else infinity negative

/-- The number of decimal digits of a natural number, one for zero. -/
def decimalLength (n : Nat) : Nat := (Nat.toDigits 10 n).length

/-- The word nearest to `± digits * 10 ^ exponent`. Exponents far outside the range of
finite words are answered without computing the power. -/
def ofDecimal (negative : Bool) (digits : Nat) (exponent : Int) : Binary64 :=
  if digits = 0 then zero negative
  else
    let top := (decimalLength digits : Int) + exponent
    if 310 < top then infinity negative
    else if top < -330 then zero negative
    else if exponent < 0 then ofRatio negative digits (Nat.pow 10 exponent.natAbs)
    else ofRatio negative (digits * Nat.pow 10 exponent.natAbs) 1

/-- The word nearest to an integer. -/
def ofInt (n : Int) : Binary64 := ofDecimal (n < 0) n.natAbs 0

end Binary64

end AggQuery
