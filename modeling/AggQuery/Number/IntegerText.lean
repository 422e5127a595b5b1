/-!
# Integer text

Integers are written in decimal, a negative one behind a minus sign, without leading zeros.
-/

namespace AggQuery

/-- The decimal text of an integer. -/
def integerText (n : Int) : List Char :=
  if n < 0 then '-' :: Nat.toDigits 10 n.natAbs else Nat.toDigits 10 n.natAbs

end AggQuery
