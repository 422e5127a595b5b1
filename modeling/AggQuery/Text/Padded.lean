/-!
# Padded text

A text in a column is cut to a greatest length, if one is given, and then filled with
blanks to a least length. Lengths count characters.
-/

namespace AggQuery.Text

/-- Where a text stands in a column that is wider than it. -/
inductive Alignment where
  | left
  | right
  | center
deriving DecidableEq, Inhabited, Repr

/-- A text in a column; where a centered text leaves an odd blank, it goes to the right. -/
def padded (alignment : Alignment) (width : Nat) (precision : Option Nat) (text : String) :
    String :=
  let shown :=
    match precision with
    | some n => text.toList.take n
    | none => text.toList
  let missing := width - shown.length
  let before :=
    match alignment with
    | .left => 0
    | .right => missing
    | .center => missing / 2
  String.ofList
    (List.replicate before ' ' ++ shown ++ List.replicate (missing - before) ' ')

end AggQuery.Text
