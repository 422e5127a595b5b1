import AggQuery.Expr.Basic

/-!
# Queries

A query selects a page of hits, sorts them, filters them and asks for aggregations. The
order of `dimensions` is the nesting order of the buckets and the order of `fields` is the
order of the metrics, so both are lists.
-/

namespace AggQuery

/-- One sort criterion. -/
structure SortField where
  name : String
  ascending : Bool := true
deriving DecidableEq, Inhabited, Repr

/-- A query in the form that a front end hands over. -/
structure Query where
  offset : UInt64 := 0
  limit : UInt64 := 0
  sortFields : List SortField := []
  filterCondition : Option Expr := none
  dimensions : List Expr := []
  fields : List Expr := []
deriving DecidableEq, Inhabited, Repr

namespace SortField

/-- The keyword of the search engine for a direction. -/
def order (sortField : SortField) : String := if sortField.ascending then "asc" else "desc"

end SortField

namespace Query

/-- Sort by one more criterion, after those present. -/
def sortBy (query : Query) (sortField : SortField) : Query :=
  { query with sortFields := query.sortFields ++ [sortField] }

/-- Filter by a condition instead of the one present. -/
def filter (query : Query) (condition : Expr) : Query :=
  { query with filterCondition := some condition }

/-- Group by one more dimension, innermost so far. -/
def groupBy (query : Query) (dimension : Expr) : Query :=
  { query with dimensions := query.dimensions ++ [dimension] }

/-- Project one more field. -/
def select (query : Query) (field : Expr) : Query :=
  { query with fields := query.fields ++ [field] }

end Query

end AggQuery
