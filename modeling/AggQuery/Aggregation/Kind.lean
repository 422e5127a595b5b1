/-!
# Aggregation kinds

The kinds of aggregation that the search engine knows, in two families: metrics compute
values and buckets group documents. A kind is written by its tag. Two kinds, `dateRange`
and `filter`, share a tag, so reading a tag gives the first kind in the list that has it.
-/

namespace AggQuery

/-- The two families of aggregations. -/
inductive AggregationFamily where
  | metric
  | bucket
deriving DecidableEq, Inhabited, Repr

/-- The kinds of aggregations. -/
inductive AggregationKind where
  | avg | cardinality | extendedStats | geoBounds | geoCentroid | max | min | percentiles
  | percentileRanks | stats | sum | top | valueCount
  | dateHistogram | dateRange | filter | filters | geoDistance | geoHashGrid | global
  | histogram | ipRange | missing | nested | range | reverseNested | sampler | significantTerms
  | terms
deriving DecidableEq, Inhabited, Repr

/-- ASCII letters in lower case, all else unchanged. -/
def lowerCase (s : String) : String := String.ofList (s.toList.map Char.toLower)

namespace AggregationFamily

/-- The name of a family. -/
def name : AggregationFamily → String
  | .metric => "metric"
  | .bucket => "bucket"

/-- The family that a name in any case, singular or plural, stands for. -/
def ofName? (name : String) : Option AggregationFamily :=
  match lowerCase name with
  | "metric" => some .metric
  | "metrics" => some .metric
  | "bucket" => some .bucket
  | "buckets" => some .bucket
  | _ => none

/-- The message for a name that stands for no family. -/
def unknownMessage (name : String) : String := "unknown aggregation family: " ++ lowerCase name

end AggregationFamily

namespace AggregationKind

/-- All kinds, metrics first. -/
def all : List AggregationKind := [
    .avg, .cardinality, .extendedStats, .geoBounds, .geoCentroid, .max, .min, .percentiles,
    .percentileRanks, .stats, .sum, .top, .valueCount, .dateHistogram, .dateRange, .filter,
    .filters, .geoDistance, .geoHashGrid, .global, .histogram, .ipRange, .missing, .nested,
    .range, .reverseNested, .sampler, .significantTerms, .terms]

/-- The name of a kind. -/
def name : AggregationKind → String
  | .avg => "Avg"
  | .cardinality => "Cardinality"
  | .extendedStats => "ExtendedStats"
  | .geoBounds => "GeoBounds"
  | .geoCentroid => "GeoCentroid"
  | .max => "Max"
  | .min => "Min"
  | .percentiles => "Percentiles"
  | .percentileRanks => "PercentileRanks"
  | .stats => "Stats"
  | .sum => "Sum"
  | .top => "Top"
  | .valueCount => "ValueCount"
  | .dateHistogram => "DateHistogram"
  | .dateRange => "DateRange"
  | .filter => "Filter"
  | .filters => "Filters"
  | .geoDistance => "GeoDistance"
  | .geoHashGrid => "GeoHashGrid"
  | .global => "Global"
  | .histogram => "Histogram"
  | .ipRange => "IpRange"
  | .missing => "Missing"
  | .nested => "Nested"
  | .range => "Range"
  | .reverseNested => "ReverseNested"
  | .sampler => "Sampler"
  | .significantTerms => "SignificantTerms"
  | .terms => "Terms"

/-- The tag of a kind in requests. -/
def tag : AggregationKind → String
  | .avg => "avg"
  | .cardinality => "cardinality"
  | .extendedStats => "extended_stats"
  | .geoBounds => "geo_bounds"
  | .geoCentroid => "geo_centroid"
  | .max => "max"
  | .min => "min"
  | .percentiles => "percentiles"
  | .percentileRanks => "percentile_ranks"
  | .stats => "stats"
  | .sum => "sum"
  | .top => "top"
  | .valueCount => "value_count"
  | .dateHistogram => "date_histogram"
  | .dateRange => "date_range"
  | .filter => "date_range"
  | .filters => "filters"
  | .geoDistance => "geo_distance"
  | .geoHashGrid => "geohash_grid"
  | .global => "global"
  | .histogram => "histogram"
  | .ipRange => "ip_range"
  | .missing => "missing"
  | .nested => "nested"
  | .range => "range"
  | .reverseNested => "reverse_nested"
  | .sampler => "sampler"
  | .significantTerms => "significant_terms"
  | .terms => "terms"

/-- The family of a kind. -/
def family : AggregationKind → AggregationFamily
  | .avg | .cardinality | .extendedStats | .geoBounds | .geoCentroid | .max | .min
  | .percentiles | .percentileRanks | .stats | .sum | .top | .valueCount => .metric
  | .dateHistogram | .dateRange | .filter | .filters | .geoDistance | .geoHashGrid | .global
  | .histogram | .ipRange | .missing | .nested | .range | .reverseNested | .sampler
  | .significantTerms | .terms => .bucket

def isMetric (kind : AggregationKind) : Bool := kind.family == .metric

def isBucket (kind : AggregationKind) : Bool := kind.family == .bucket

/-- The kinds of a family, in order. -/
def ofFamily (family : AggregationFamily) : List AggregationKind :=
  all.filter fun kind => kind.family == family

/-- The first kind with a tag. -/
def ofTag? (tag : String) : Option AggregationKind := all.find? fun kind => kind.tag == tag

/-- The kind with a name. -/
def ofName? (name : String) : Option AggregationKind := all.find? fun kind => kind.name == name

/-- The message for a tag that no kind has. -/
def unknownTagMessage (tag : String) : String := "unknown aggregation tag: " ++ tag

theorem mem_all (kind : AggregationKind) : kind ∈ all := by cases kind <;> decide

theorem ofName?_name (kind : AggregationKind) : ofName? kind.name = some kind := by
  cases kind <;> decide

/-- A tag reads back as its kind, but for the one kind that shares another's tag. -/
theorem ofTag?_tag (kind : AggregationKind) :
    ofTag? kind.tag = some (if kind = .filter then .dateRange else kind) := by
  cases kind <;> decide

end AggregationKind

end AggQuery
