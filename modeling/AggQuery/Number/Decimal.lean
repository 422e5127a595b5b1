import AggQuery.Number.Binary64

/-!
# Shortest decimals

A finite word is written with the fewest decimal digits that lie closer to it than to any
other word. `Binary64.shortest` finds them: on the grids of one, two, … seventeen digits
it tests the two grid points next to the value and takes the first grid with a point that
rounds to the word; of two such points the nearer wins.

## Implementation notes

The value and the two ends of the interval that rounds to it are numerators over one
common denominator, so that every comparison is one of natural numbers.
-/

namespace AggQuery

/-- The number `digits * 10 ^ exponent`. -/
structure Decimal where
  digits : Nat
  exponent : Int
deriving DecidableEq, Inhabited, Repr

/-- Which neighbour an exact tie between two grid points goes to. -/
inductive TieRule where
  | toEven
  | up
deriving DecidableEq, Inhabited, Repr

namespace Decimal

/-- The same number without trailing zero digits; `fuel` bounds their count. -/
def trim : Nat → Decimal → Decimal
  | 0, d => d
  | fuel + 1, d =>
    if d.digits ≠ 0 ∧ d.digits % 10 = 0 then trim fuel ⟨d.digits / 10, d.exponent + 1⟩ else d

end Decimal

/-- The reals that round to a word: numerators of the lower end, the value and the upper
end over one denominator, and whether the ends belong to the interval. -/
structure RoundingInterval where
  lower : Nat
  value : Nat
  upper : Nat
  denominator : Nat
  closed : Bool

namespace Binary64

/-- The interval of a finite word; below a power of two the gap is half as wide. -/
def interval (x : Binary64) : RoundingInterval :=
  let m := x.significand
  let below := if x.fraction = 0 ∧ 1 < x.exponentField then 1 else 2
  let up := if x.scale < 0 then 1 else 1 <<< x.scale.natAbs
  let down := if x.scale < 0 then 1 <<< x.scale.natAbs else 1
  { lower := (4 * m - below) * up
    value := 4 * m * up
    upper := (4 * m + 2) * up
    denominator := 4 * down
    closed := m % 2 == 0 }

end Binary64

namespace RoundingInterval

/-- Membership of `p / q * denominator`, that is of the real `p / q`. -/
def contains (i : RoundingInterval) (p q : Nat) : Bool :=
  let x := p * i.denominator
  if i.closed then decide (i.lower * q ≤ x) && decide (x ≤ i.upper * q)
  else decide (i.lower * q < x) && decide (x < i.upper * q)

/-- The least `k` with value below `10 ^ k`, searched upwards from `k`. -/
def magnitudeFrom (i : RoundingInterval) : Nat → Int → Int
  | 0, k => k
  | fuel + 1, k =>
    let reached :=
      if k < 0 then decide (i.value * Nat.pow 10 k.natAbs < i.denominator)
      else decide (i.value < i.denominator * Nat.pow 10 k.natAbs)
    if reached then k else magnitudeFrom i fuel (k + 1)

/-- The number of digits before the point. The binary length gives a start that is at
most two too low. -/
def magnitude (i : RoundingInterval) : Int :=
  let b : Int := (Nat.log2 i.value : Int) - Nat.log2 i.denominator - 1
  magnitudeFrom i 4 (b * 30103 / 100000)

/-- The point of the grid with `n` digits that is written for the value, if one of the
value's two neighbours on that grid lies in the interval. -/
def gridPoint (i : RoundingInterval) (tie : TieRule) (k : Int) (n : Nat) : Option Decimal :=
  let exponent := k - n
  let p := if exponent < 0 then 1 else Nat.pow 10 exponent.natAbs
  let q := if exponent < 0 then Nat.pow 10 exponent.natAbs else 1
  let a := i.value * q / (i.denominator * p)
  let inner := i.contains (a * p) q
  let outer := i.contains ((a + 1) * p) q
  let point (digits : Nat) : Option Decimal := some ⟨digits, exponent⟩
  if inner && outer then
    let gap := 2 * (i.value * q)
    let middle := (2 * a + 1) * (i.denominator * p)
    if gap < middle then point a
    else if middle < gap then point (a + 1)
    else match tie with
      | .up => point (a + 1)
      | .toEven => point (if a % 2 = 0 then a else a + 1)
  else if inner then point a
  else if outer then point (a + 1)
  else none

/-- The first grid, from `n` digits on, that has a point for the value. -/
def firstPoint (i : RoundingInterval) (tie : TieRule) (k : Int) : Nat → Nat → Decimal
  | 0, n => (i.gridPoint tie k n).getD ⟨0, 0⟩
  | fuel + 1, n =>
    match i.gridPoint tie k n with
    | some d => d
    | none => firstPoint i tie k fuel (n + 1)

end RoundingInterval

namespace Binary64

/-- The shortest decimal of a finite word's magnitude, without trailing zeros. -/
def shortest (tie : TieRule) (x : Binary64) : Decimal :=
  if x.isZero then ⟨0, 0⟩
  else
    let i := x.interval
    (i.firstPoint tie i.magnitude 17 1).trim 20

end Binary64

end AggQuery
