import AggQuery.Aggregation.Kind
import AggQuery.Text.Padded

/-!
# The table of kinds

A table with a row for every aggregation kind, or for those of one family: family, name and
tag in columns.
-/

namespace AggQuery

namespace AggregationKind

/-- One row of the table. -/
def row (family name tag : String) : String :=
  Text.padded .left 8 none family ++ "  " ++ Text.padded .left 18 none name ++ "  " ++ tag

/-- The kinds of a family, or all kinds, in order. -/
def inFamily (family : Option AggregationFamily) : List AggregationKind :=
  match family with
  | some family => ofFamily family
  | none => all

/-- The lines of the table. -/
def tableLines (family : Option AggregationFamily) : List String :=
  row "FAMILY" "KIND" "TAG" :: String.ofList (List.replicate 50 '-') ::
    (inFamily family).map fun kind => row kind.family.name kind.name kind.tag

/-- The table, every line ended by a line break. -/
def table (family : Option AggregationFamily) : String :=
  String.join ((tableLines family).map (· ++ "\n"))

theorem length_tableLines (family : Option AggregationFamily) :
    (tableLines family).length = (inFamily family).length + 2 := by
  simp [tableLines]

end AggregationKind

end AggQuery
