import AggQuery.Aggregation.Descriptors
import AggQuery.Document.Path
import AggQuery.Document.Writer
import AggQuery.Request.AggsPath

/-!
# Requests

The request of a query is a document: the page, the sort criteria, the filter script and
the aggregations. The aggregations are written one by one at their key paths, each bucket
below the bucket before it and all metrics below the last bucket.
-/

namespace AggQuery

/-- The sort criteria of a request, one object for each. -/
def sortDocument (sortFields : List SortField) : Document :=
  .array (sortFields.map fun sortField => .object [(sortField.name, .string sortField.order)])

/-- The key path of the filter script. -/
def filterPath : List String := ["query", "bool", "filter", "script", "script"]

/-- Write buckets from a path on, each below the one before; the last path comes with the
fields. -/
def placeBuckets (fields : Fields) (path : AggsPath) (buckets : List AggregationNode) :
    Fields × AggsPath :=
  match buckets with
  | [] => (fields, path)
  | bucket :: rest =>
    placeBuckets (fields.insertAt (path.nodePath bucket) (.object bucket.params))
      (path.descend bucket) rest

/-- Write metrics side by side at a path. -/
def placeMetrics (fields : Fields) (path : AggsPath) (metrics : List AggregationNode) : Fields :=
  match metrics with
  | [] => fields
  | metric :: rest =>
    placeMetrics (fields.insertAt (path.nodePath metric) (.object metric.params)) path rest

/-- Write buckets, and metrics below the last bucket. -/
def placeAggregations (fields : Fields) (buckets metrics : List AggregationNode) : Fields :=
  let (fields, path) := placeBuckets fields {} buckets
  placeMetrics fields path metrics

/-- The fields of a request before its aggregations. -/
def requestHead (query : Query) : Fields :=
  let page : Fields := [
    ("from", .ofInt query.offset.toNat),
    ("size", .ofInt query.limit.toNat),
    ("sort", sortDocument query.sortFields)]
  match query.filterCondition with
  | some condition => page.insertAt filterPath (.string condition.script)
  | none => page

namespace Query

/-- The request of a query. -/
def translate (query : Query) : Except TranslateError Document :=
  match buckets query.dimensions with
  | .error e => .error e
  | .ok buckets =>
    match metrics query.fields with
    | .error e => .error e
    | .ok metrics => .ok (.object (placeAggregations (requestHead query) buckets metrics))

theorem translate_eq_ok_iff (query : Query) (document : Document) :
    query.translate = .ok document ↔
      ∃ bucketNodes metricNodes, buckets query.dimensions = .ok bucketNodes ∧
        metrics query.fields = .ok metricNodes ∧
        document = .object (placeAggregations (requestHead query) bucketNodes metricNodes) := by
  unfold translate
  cases buckets query.dimensions with
  | error e => simp
  | ok bucketNodes =>
      cases metrics query.fields with
      | error e => simp
      | ok metricNodes => simp [eq_comm]

/-- The compact text of a query's request. -/
def requestText (query : Query) : Except TranslateError String :=
  query.translate.map Document.compact

/-- The indented text of a query's request. -/
def requestTextPretty (query : Query) : Except TranslateError String :=
  query.translate.map Document.pretty

/-- The compact text of a query's request, empty if there is none. -/
def requestTextOrEmpty (query : Query) : String :=
  match query.requestText with
  | .ok text => text
  | .error _ => ""

end Query

end AggQuery
