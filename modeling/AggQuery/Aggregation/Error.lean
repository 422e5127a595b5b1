/-!
# Errors of translating

Why a query has no request. Every cause but the last lies in the query; the last is a
failure of writing the request down.
-/

namespace AggQuery

/-- Why a query cannot be translated. -/
inductive TranslateError where
  | unsupportedBucket (script : String)
  | unsupportedMetric (script : String)
  | invalidArguments (function : String) (expected found : Nat)
  | duplicateAggregation (name : String)
  | serialization (message : String)
deriving DecidableEq, Inhabited, Repr

namespace TranslateError

/-- A stable name for the kind of error. -/
def code : TranslateError → String
  | .unsupportedBucket _ => "unsupported_bucket_aggregation"
  | .unsupportedMetric _ => "unsupported_metric_aggregation"
  | .invalidArguments _ _ _ => "invalid_arguments"
  | .duplicateAggregation _ => "duplicate_aggregation"
  | .serialization _ => "serialization_failure"

/-- The text shown for an error. -/
def message : TranslateError → String
  | .unsupportedBucket script => "Unsupported bucket aggregation: " ++ script
  | .unsupportedMetric script => "Unsupported metric aggregation: " ++ script
  | .invalidArguments function expected found =>
    "Invalid arguments for " ++ function ++ ": expected " ++ toString expected ++
      ", found " ++ toString found
  | .duplicateAggregation name => "Duplicate aggregation name: " ++ name
  | .serialization message => "Serialization error: " ++ message

/-- Whether the cause lies in the query. -/
def isQueryError : TranslateError → Bool
  | .serialization _ => false
  | _ => true

end TranslateError

end AggQuery
