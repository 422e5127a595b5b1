import AggQuery.Aggregation.Error
import AggQuery.Aggregation.Node
import AggQuery.Expr.Script
import AggQuery.Query.Basic

/-!
# From expressions to aggregations

Each dimension of a query becomes a bucket and each aggregate call among its fields a
metric. Both are named by the script of their expression. Two buckets of one name are an
error, and a repeated metric is left out.

## Implementation notes

Buckets and metrics are read from the front, and the names or nodes so far are an
argument, so that the first error in the list is the one reported.
-/

namespace AggQuery

/-- The bucket of one dimension: a date histogram for a `date_histogram` call with two
arguments, terms for any other one and for all that is no call. -/
def bucketOf (dimension : Expr) : Except TranslateError AggregationNode :=
  match dimension with
  | .call name args =>
    if name = "date_histogram" then
      match args with
      | [field, interval] =>
        .ok (.dateHistogram dimension.script field.script interval.script)
      | _ => .ok (.termsScript dimension.script dimension.script)
    else .error (.unsupportedBucket dimension.script)
  | _ => .ok (.termsScript dimension.script dimension.script)

/-- The buckets of the dimensions that follow buckets with the names in `seen`. -/
def bucketsAfter (seen : List String) (dimensions : List Expr) :
    Except TranslateError (List AggregationNode) :=
  match dimensions with
  | [] => .ok []
  | dimension :: rest =>
    match bucketOf dimension with
    | .error e => .error e
    | .ok bucket =>
      if bucket.name ∈ seen then .error (.duplicateAggregation bucket.name)
      else (bucketsAfter (bucket.name :: seen) rest).map (bucket :: ·)

/-- The buckets of a query's dimensions, outermost first. -/
def buckets (dimensions : List Expr) : Except TranslateError (List AggregationNode) :=
  bucketsAfter [] dimensions

/-- The kind of metric that an aggregate function computes. -/
def metricKind? (function : String) : Option AggregationKind :=
  match function with
  | "avg" => some .avg
  | "cardinality" => some .cardinality
  | "sum" => some .sum
  | "max" => some .max
  | "min" => some .min
  | "top" => some .top
  | "count" => some .valueCount
  | "stats" => some .stats
  | "extended_stats" => some .extendedStats
  | _ => none

/-- The metric of one field. A field that is no call has none. -/
def metricOf (field : Expr) : Except TranslateError (Option AggregationNode) :=
  match field with
  | .call function args =>
    match metricKind? function with
    | none => .error (.unsupportedMetric field.script)
    | some kind =>
      match args with
      | [arg] => .ok (some (.scriptMetric kind field.script arg.script))
      | _ => .error (.invalidArguments function 1 args.length)
  | _ => .ok none

/-- The metrics of the fields that follow metrics with the names in `seen`. -/
def metricsAfter (seen : List String) (fields : List Expr) :
    Except TranslateError (List AggregationNode) :=
  match fields with
  | [] => .ok []
  | field :: rest =>
    match metricOf field with
    | .error e => .error e
    | .ok none => metricsAfter seen rest
    | .ok (some metric) =>
      if metric.name ∈ seen then metricsAfter seen rest
      else (metricsAfter (metric.name :: seen) rest).map (metric :: ·)

/-- The metrics of a query's fields, without repetitions. -/
def metrics (fields : List Expr) : Except TranslateError (List AggregationNode) :=
  metricsAfter [] fields

end AggQuery
