import AggQuery.Proofs.Aggregation.Descriptors
import AggQuery.Proofs.Request.Placement

/-!
# The request as a tree

`Query.requestTree` says which document a query asks for, by recursion on its dimensions
and fields and without any write at a path. Every query that has a request has this one,
with the keys of each object in this order.
-/

namespace AggQuery

/-- A script as parameters. -/
def scriptParams (e : Expr) : Document := .object [("script", .string e.script)]

/-- The metrics of the calls among the fields, in the order of their first occurrences. -/
def metricFields (fields : List Expr) : Fields :=
  match fields with
  | [] => []
  | field :: rest =>
    match field with
    | .call function [arg] =>
      match metricKind? function with
      | some kind =>
        (field.script, .object [(kind.tag, scriptParams arg)]) ::
          (metricFields rest).filter fun entry => entry.1 ≠ field.script
      | none => metricFields rest
    | _ => metricFields rest

/-- The aggregations of dimensions, outermost first, and of the calls among the fields.
Those below a date histogram stand beside it. -/
def dimensionFields (dimensions fields : List Expr) : Fields :=
  match dimensions with
  | [] => metricFields fields
  | dimension :: rest =>
    let below : Fields :=
      if rest = [] ∧ metricFields fields = [] then []
      else [("aggs", .object (dimensionFields rest fields))]
    match dimension.dateHistogramArguments? with
    | some (date, interval) =>
      (dimension.script, .object [("date_histogram", .object [
        ("field", .string date.script), ("interval", .string interval.script)])]) :: below
    | none => [(dimension.script, .object (("terms", scriptParams dimension) :: below))]

namespace Query

/-- The page and the sort criteria. -/
def pageFields (query : Query) : Fields := [
  ("from", .ofInt query.offset.toNat),
  ("size", .ofInt query.limit.toNat),
  ("sort", .array (query.sortFields.map fun sortField =>
    .object [(sortField.name, .string (if sortField.ascending then "asc" else "desc"))]))]

/-- The script filter, if there is a condition. -/
def filterFields (query : Query) : Fields :=
  match query.filterCondition with
  | some condition => [("query", .object [("bool", .object [("filter", .object [
      ("script", scriptParams condition)])])])]
  | none => []

/-- The aggregations, if a dimension or a call asks for one. -/
def aggregationFields (query : Query) : Fields :=
  if query.dimensions = [] ∧ ∀ field ∈ query.fields, field.asCall? = none then []
  else [("aggs", .object (dimensionFields query.dimensions query.fields))]

/-- The document that a query asks for. -/
def requestTree (query : Query) : Document :=
  .object (query.pageFields ++ query.filterFields ++ query.aggregationFields)

end Query

theorem metricFields_cons (field : Expr) (rest : List Expr) :
    metricFields (field :: rest) =
      match metricNode? field with
      | some node => node.entry [] :: (metricFields rest).filter fun entry => entry.1 ≠ node.name
      | none => metricFields rest := by
  cases field with
  | call function args =>
      match args with
      | [arg] =>
          rw [metricFields, metricNode?]
          cases metricKind? function <;> rfl
      | [] | _ :: _ :: _ => simp [metricFields, metricNode?]
  | _ => simp [metricFields, metricNode?]

theorem metricFields_eq (fields : List Expr) :
    metricFields fields =
      (distinctByName (fields.filterMap metricNode?)).map fun node => node.entry [] := by
  induction fields with
  | nil => rfl
  | cons field rest ih =>
      rw [metricFields_cons]
      cases hnode : metricNode? field with
      | none => rw [List.filterMap_cons_none hnode, ih]
      | some node =>
          rw [List.filterMap_cons_some hnode, distinctByName, List.map_cons, ih]
          dsimp only
          rw [List.filter_map]
          rfl

theorem dimensionFields_eq_nil_iff (dimensions fields : List Expr) :
    dimensionFields dimensions fields = [] ↔ dimensions = [] ∧ metricFields fields = [] := by
  cases dimensions with
  | nil => simp [dimensionFields]
  | cons dimension rest =>
      cases h : dimension.dateHistogramArguments? <;> simp [dimensionFields, h]

theorem dimensionFields_eq (dimensions fields : List Expr) :
    dimensionFields dimensions fields =
      nodeFields (dimensions.map bucketNode) (distinctByName (fields.filterMap metricNode?)) := by
  induction dimensions with
  | nil => exact metricFields_eq fields
  | cons dimension rest ih =>
      have hbelow : (if rest = [] ∧ metricFields fields = [] then []
          else [("aggs", .object (dimensionFields rest fields))]) =
            aggsField (dimensionFields rest fields) := by
        simp only [← dimensionFields_eq_nil_iff, aggsField_eq_ite, aggsKey]
      rw [dimensionFields, hbelow, ih, List.map_cons, nodeFields, bucketNode]
      cases dimension.dateHistogramArguments? with
      | none => rfl
      | some arguments => rfl

theorem requestHead_eq (query : Query) :
    requestHead query = query.pageFields ++ query.filterFields := by
  unfold requestHead Query.filterFields
  cases query.filterCondition with
  | none => simp [Query.pageFields, sortDocument, SortField.order]
  | some condition =>
      simp [Query.pageFields, sortDocument, SortField.order, filterPath, Fields.insertAt,
        Fields.set, Fields.below, Fields.get?, scriptParams]

theorem aggregationFields_eq (query : Query) (h : FaultFree fieldFault? query.fields) :
    query.aggregationFields =
      aggsField (nodeFields (query.dimensions.map bucketNode)
        (distinctByName (query.fields.filterMap metricNode?))) := by
  have hcalls : (∀ field ∈ query.fields, field.asCall? = none) ↔
      distinctByName (query.fields.filterMap metricNode?) = [] := by
    rw [distinctByName_eq_nil_iff, List.filterMap_eq_nil_iff]
    have haccepted := (faultFree_fields_iff query.fields).mp h
    constructor
    · intro hnone field hfield
      exact (metricNode?_eq_none_iff (haccepted field hfield)).mpr (hnone field hfield)
    · intro hnone field hfield
      exact (metricNode?_eq_none_iff (haccepted field hfield)).mp (hnone field hfield)
  rw [Query.aggregationFields, dimensionFields_eq, aggsField_eq_ite]
  simp only [hcalls, nodeFields_eq_nil_iff, List.map_eq_nil_iff, aggsKey]

/-- A bucket of another kind than terms is a date histogram, and its name has arguments. -/
theorem bucketNode_name_ne_aggsKey (dimension : Expr)
    (h : (bucketNode dimension).kind ≠ .terms) : (bucketNode dimension).name ≠ aggsKey := by
  cases dimension with
  | call name args =>
      intro hname
      have hchars : (Expr.call name args).chars = aggsKey.toList := by
        rw [← Expr.toList_script, ← bucketNode_name, hname]
      have hparen : '(' ∈ aggsKey.toList := by
        rw [← hchars]
        simp [Expr.chars]
      exact absurd hparen (by decide)
  | _ => exact absurd rfl h

/-- A request is its head with the aggregations of the query's nodes behind it. -/
theorem Query.translate_eq_head_append {query : Query} {document : Document}
    (h : query.translate = .ok document) :
    ∃ bucketNodes metricNodes, buckets query.dimensions = .ok bucketNodes ∧
      metrics query.fields = .ok metricNodes ∧
      document = .object (requestHead query ++ aggsField (nodeFields bucketNodes metricNodes)) := by
  obtain ⟨bucketNodes, metricNodes, hbuckets, hmetrics, rfl⟩ :=
    (query.translate_eq_ok_iff document).mp h
  refine ⟨bucketNodes, metricNodes, hbuckets, hmetrics, ?_⟩
  obtain ⟨_, rfl⟩ := (buckets_eq_ok_iff _ _).mp hbuckets
  obtain ⟨_, rfl⟩ := (metrics_eq_ok_iff _ _).mp hmetrics
  have hhead : aggsKey ∉ (requestHead query).keys := by
    rw [requestHead_eq, Query.pageFields, Query.filterFields]
    cases query.filterCondition <;> simp [aggsKey]
  have hnames : ∀ bucket ∈ query.dimensions.map bucketNode,
      bucket.kind ≠ .terms → bucket.name ≠ aggsKey := by
    intro bucket hbucket hkind
    obtain ⟨dimension, _, rfl⟩ := List.mem_map.mp hbucket
    exact bucketNode_name_ne_aggsKey dimension hkind
  rw [placeAggregations_eq _ _ _ hhead hnames (nodup_names_distinctByName _)]

/-- A query that has a request has its tree as request. -/
theorem Query.eq_requestTree_of_translate {query : Query} {document : Document}
    (h : query.translate = .ok document) : document = query.requestTree := by
  obtain ⟨bucketNodes, metricNodes, hbuckets, hmetrics, rfl⟩ := query.translate_eq_head_append h
  obtain ⟨_, rfl⟩ := (buckets_eq_ok_iff _ _).mp hbuckets
  obtain ⟨hfree, rfl⟩ := (metrics_eq_ok_iff _ _).mp hmetrics
  rw [requestHead_eq, ← aggregationFields_eq query hfree]
  rfl

/-- Terms named like the key of the aggregations, a date histogram and terms again; the
first of two metrics is asked for twice. -/
def mixedLevels : Query where
  limit := 5
  sortFields := [{ name := "ts", ascending := false }]
  filterCondition := some (.unary .not (.field "hidden"))
  dimensions := [.field "aggs", .call "date_histogram" [.field "ts", .literal (.duration "1d")],
    .field "city"]
  fields := [.call "sum" [.field "total"], .field "city", .call "count" [.wildcard],
    .call "sum" [.field "total"]]

/-- The request of `mixedLevels`. -/
def mixedLevelsRequest : Document :=
  let script (text : String) : Document := .object [("script", .string text)]
  .object [
    ("from", .ofInt 0),
    ("size", .ofInt 5),
    ("sort", .array [.object [("ts", .string "desc")]]),
    ("query", .object [("bool", .object [("filter", .object [("script", script "!hidden")])])]),
    ("aggs", .object [("aggs", .object [
      ("terms", script "aggs"),
      ("aggs", .object [
        ("date_histogram(ts, 1d)", .object [("date_histogram", .object [
          ("field", .string "ts"), ("interval", .string "1d")])]),
        ("aggs", .object [("city", .object [
          ("terms", script "city"),
          ("aggs", .object [
            ("sum(total)", .object [("sum", script "total")]),
            ("count(*)", .object [("value_count", script "*")])])])])])])])]

theorem mixedLevelsRequest_eq_requestTree :
    mixedLevels.translate = .ok mixedLevelsRequest ∧
      mixedLevelsRequest = mixedLevels.requestTree :=
  have h : mixedLevels.translate = .ok mixedLevelsRequest := by rfl
  ⟨h, Query.eq_requestTree_of_translate h⟩

end AggQuery
