import AggQuery.Number.Decimal

/-!
# Decimals in steps

A decimal in a document is not rounded as a whole. Its digits are rounded to a word first,
and this word is multiplied or divided by a power of ten, which rounds again. The result is
the nearest word or one close to it; a decimal that is too large has none.

## Implementation notes

The greatest power of ten that is a finite word is `10 ^ 308`, so an exponent far below zero
takes several divisions. They end early at zero.
-/

namespace AggQuery.Binary64

/-- The number `num / den * 2 ^ e`, rounded once. -/
def ofScaled (num den : Nat) (e : Int) : Binary64 :=
  if e < 0 then ofRatio false num (den <<< e.natAbs)
  else ofRatio false (num <<< e.natAbs) den

/-- The product of the magnitudes of two finite words. -/
def mulMagnitudes (x y : Binary64) : Binary64 :=
  ofScaled (x.significand * y.significand) 1 (x.scale + y.scale)

/-- The quotient of the magnitudes of two finite words, the second one not zero. -/
def divMagnitudes (x y : Binary64) : Binary64 :=
  ofScaled x.significand y.significand (x.scale - y.scale)

/-- The magnitude of a word with a sign. -/
def withSign (negative : Bool) (x : Binary64) : Binary64 := ofMagnitude negative x.word

/-- The word nearest to a power of ten. -/
def powerOfTen (n : Nat) : Binary64 := ofDecimal false 1 n

/-- The exponent of the greatest power of ten that is a finite word. -/
def greatestPower : Nat := 308

/-- A word divided by `10 ^ n`, where so many divisions by the greatest power go before the
last one. -/
def lowered (x : Binary64) (n : Nat) : Nat → Binary64
  | 0 => x.divMagnitudes (powerOfTen n)
  | steps + 1 =>
    if x.isZero then x
    else lowered (x.divMagnitudes (powerOfTen greatestPower)) (n - greatestPower) steps

/-- The word for `digits * 10 ^ exponent`, if it is finite. -/
def ofSteps? (digits : Nat) (exponent : Int) : Option Binary64 :=
  let x := ofRatio false digits 1
  let n := exponent.natAbs
  if exponent < 0 then some (x.lowered n ((n - 1) / greatestPower))
  else if n ≤ greatestPower then
    let y := x.mulMagnitudes (powerOfTen n)
    if y.isFinite then some y else none
  else if x.isZero then some x
  else none

end AggQuery.Binary64
