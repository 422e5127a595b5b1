import AggQuery.Proofs.Reading.NestingLimit
import AggQuery.Proofs.Request.Decoding

/-!
# How deep a request nests

The depth of a request follows from the kinds of its buckets, its number of metrics, and
whether it sorts and filters; no name or expression of the query bears on it. So the texts of
a request can be read back under the nesting limit exactly if this number keeps to the limit
(`Query.depth_of_translate`).

## Implementation notes

What stands below a bucket is one field, empty or not, so the induction on the buckets speaks
of the object of that field alone. An object without fields has depth one; that is why the
depth of the aggregations appears as `max 1`.
-/

namespace AggQuery

/-- The levels from the aggregations that the first of some buckets stands in to those below
the last one. -/
def levelsBelow (kinds : List AggregationKind) : Nat :=
  2 * kinds.count .terms + kinds.count .dateHistogram

/-- The depth of the aggregations of a request, from its buckets' kinds, outermost first, and
its number of metrics. Without any there are no aggregations. -/
def aggregationDepth (bucketKinds : List AggregationKind) (metricCount : Nat) : Nat :=
  if 0 < metricCount then 4 + levelsBelow bucketKinds
  else if bucketKinds ≠ [] then 4 + levelsBelow bucketKinds.dropLast
  else 0

/-- The depth of a request. -/
def requestDepth (sortCount : Nat) (filtered : Bool) (bucketKinds : List AggregationKind)
    (metricCount : Nat) : Nat :=
  max (max 2 (if 0 < sortCount then 3 else 0))
    (max (if filtered then 5 else 0) (aggregationDepth bucketKinds metricCount))

namespace Document

theorem depthOfFields_eq (fields : Fields) :
    depthOfFields fields = depthOfItems (fields.map Prod.snd) := by
  induction fields with
  | nil => rfl
  | cons entry rest ih => rw [depthOfFields, ih, List.map_cons, depthOfItems]

theorem depthOfItems_append (items more : List Document) :
    depthOfItems (items ++ more) = max (depthOfItems items) (depthOfItems more) := by
  induction items with
  | nil => rw [List.nil_append, depthOfItems, Nat.zero_max]
  | cons item rest ih => rw [List.cons_append, depthOfItems, depthOfItems, ih, Nat.max_assoc]

/-- Items of one depth are together as deep as each of them. -/
theorem depthOfItems_of_forall {items : List Document} (hne : items ≠ []) {n : Nat}
    (h : ∀ item ∈ items, item.depth = n) : depthOfItems items = n := by
  induction items with
  | nil => exact absurd rfl hne
  | cons item rest ih =>
      obtain ⟨hitem, hrest⟩ := List.forall_mem_cons.mp h
      rw [depthOfItems, hitem]
      cases rest with
      | nil => exact Nat.max_zero n
      | cons other more => rw [ih (by simp) hrest, Nat.max_self]

theorem depth_object (fields : Fields) :
    (object fields).depth = depthOfItems (fields.map Prod.snd) + 1 := by
  rw [depth, depthOfFields_eq]

/-- An object with the fields of two is as deep as the deeper one. -/
theorem depth_object_append (fields more : Fields) :
    (object (fields ++ more)).depth = max (object fields).depth (object more).depth := by
  simp only [depth_object, List.map_append, depthOfItems_append, Nat.add_max_add_right]

theorem depth_object_cons (key : String) (value : Document) (rest : Fields) :
    (object ((key, value) :: rest)).depth = max (value.depth + 1) (object rest).depth := by
  simp only [depth_object, List.map_cons, depthOfItems, Nat.add_max_add_right]

end Document

open Document

/-- All parameters of a node are scalars, and there is at least one object to hold them. -/
def AggregationNode.HasScalarParams (node : AggregationNode) : Prop :=
  (Document.object node.params).depth = 1

theorem hasScalarParams_bucketNode (dimension : Expr) :
    (bucketNode dimension).HasScalarParams := by
  unfold bucketNode
  split <;> rfl

theorem hasScalarParams_metricNode? {field : Expr} {node : AggregationNode}
    (h : metricNode? field = some node) : node.HasScalarParams := by
  obtain ⟨function, arg, kind, -, -, rfl⟩ := metricNode?_eq_some_iff.mp h
  rfl

/-- A node is one level deeper than its parameters and what stands after them. -/
theorem AggregationNode.HasScalarParams.depth_entry {node : AggregationNode}
    (h : node.HasScalarParams) (below : Fields) :
    (node.entry below).2.depth = max 2 (Document.object below).depth := by
  rw [entry, depth_object_cons, h]

theorem depth_aggsField {inner : Fields} (h : inner ≠ []) :
    (Document.object (aggsField inner)).depth = (Document.object inner).depth + 1 := by
  rw [aggsField_of_ne_nil h, depth_object_cons]
  exact Nat.max_eq_left (Nat.le_add_left 1 _)

/-- The first of some buckets moves the aggregations below it by one level, or by two if it is
a terms bucket. -/
theorem aggregationDepth_cons {kind : AggregationKind}
    (h : kind = .terms ∨ kind = .dateHistogram) (rest : List AggregationKind)
    (metricCount : Nat) :
    aggregationDepth (kind :: rest) metricCount =
      max 4 (aggregationDepth rest metricCount + if kind = .terms then 2 else 1) := by
  have hlevels (kinds : List AggregationKind) :
      levelsBelow (kind :: kinds) = levelsBelow kinds + if kind = .terms then 2 else 1 := by
    rcases h with rfl | rfl <;> simp [levelsBelow] <;> omega
  unfold aggregationDepth
  by_cases hmetrics : 0 < metricCount
  · rw [if_pos hmetrics, if_pos hmetrics, hlevels]
    omega
  · cases rest with
    | nil => rcases h with rfl | rfl <;> simp [hmetrics, levelsBelow]
    | cons next more =>
        rw [if_neg hmetrics, if_neg hmetrics, if_pos (by simp), if_pos (by simp),
          List.dropLast_cons_cons, hlevels]
        omega

/-- The aggregations that nodes form are as deep as the kinds of the buckets and the number of
metrics say. -/
theorem depth_aggsField_nodeFields {buckets metrics : List AggregationNode}
    (hbuckets : ∀ bucket ∈ buckets, IsPlacedBucket bucket ∧ bucket.HasScalarParams)
    (hmetrics : ∀ metric ∈ metrics, metric.HasScalarParams) :
    (Document.object (aggsField (nodeFields buckets metrics))).depth =
      max 1 (aggregationDepth (buckets.map AggregationNode.kind) metrics.length) := by
  induction buckets with
  | nil =>
      cases metrics with
      | nil => rfl
      | cons metric rest =>
          have hdepth : depthOfItems (((metric :: rest).map fun metric =>
              metric.entry []).map Prod.snd) = 2 := by
            apply depthOfItems_of_forall (by simp)
            simp only [List.map_map, List.forall_mem_map]
            intro other hother
            exact (hmetrics other hother).depth_entry []
          rw [depth_aggsField (by simp [nodeFields]), depth_object, nodeFields, hdepth]
          simp [aggregationDepth, levelsBelow]
  | cons bucket rest ih =>
      obtain ⟨⟨hkind, hbucket⟩, hrest⟩ := List.forall_mem_cons.mp hbuckets
      have hbelow := ih hrest
      rw [depth_aggsField (by simp [nodeFields_eq_nil_iff]), List.map_cons,
        aggregationDepth_cons hkind, nodeFields]
      by_cases hterms : bucket.kind = .terms
      · have hentry := hbucket.depth_entry (aggsField (nodeFields rest metrics))
        rw [if_pos hterms, if_pos hterms, depth_object_cons, hentry, hbelow]
        change max _ 1 + 1 = _
        omega
      · have hentry := hbucket.depth_entry []
        rw [if_neg hterms, if_neg hterms, depth_object_cons, hentry, hbelow]
        change max (max 2 1 + 1) _ + 1 = _
        omega

theorem depth_pageFields (query : Query) :
    (Document.object query.pageFields).depth =
      if 0 < query.sortFields.length then 3 else 2 := by
  have hsort : depthOfItems (query.sortFields.map fun sortField => .object [(sortField.name,
      .string (if sortField.ascending then "asc" else "desc"))]) =
        if 0 < query.sortFields.length then 1 else 0 := by
    cases query.sortFields with
    | nil => rfl
    | cons sortField rest =>
        rw [if_pos (by simp)]
        apply depthOfItems_of_forall (by simp)
        intro item hitem
        obtain ⟨other, -, rfl⟩ := List.mem_map.mp hitem
        rfl
  rw [Query.pageFields, depth_object_cons, depth_object_cons, depth_object_cons, depth, hsort]
  split <;> rfl

theorem depth_filterFields (query : Query) :
    (Document.object query.filterFields).depth =
      if query.filterCondition.isSome then 5 else 1 := by
  unfold Query.filterFields
  cases query.filterCondition <;> rfl

namespace Query

theorem depth_eq_requestDepth {query : Query} {document : Document}
    (h : query.translate = .ok document) :
    ∃ bucketNodes metricNodes, buckets query.dimensions = .ok bucketNodes ∧
      metrics query.fields = .ok metricNodes ∧
      document.depth = requestDepth query.sortFields.length query.filterCondition.isSome
        (bucketNodes.map AggregationNode.kind) metricNodes.length := by
  obtain ⟨bucketNodes, metricNodes, hbuckets, hmetrics, rfl⟩ := query.translate_eq_head_append h
  have hplaced (dimension : Expr) :
      IsPlacedBucket (bucketNode dimension) ∧ (bucketNode dimension).HasScalarParams :=
    ⟨isPlacedBucket_bucketNode dimension, hasScalarParams_bucketNode dimension⟩
  have hnodes := depth_aggsField_nodeFields (forall_mem_buckets hplaced hbuckets)
    (forall_mem_metrics hasScalarParams_metricNode? hmetrics)
  refine ⟨bucketNodes, metricNodes, hbuckets, hmetrics, ?_⟩
  rw [requestHead_eq, depth_object_append, depth_object_append, depth_pageFields,
    depth_filterFields, hnodes, requestDepth]
  split <;> split <;> omega

/-- The depth of a request is the number that its sort criteria, its filter, the kinds of its
buckets and the number of its metrics give, whatever the names and expressions of the query.
Both its texts are read back under the nesting limit if this number keeps to the limit, and
refused otherwise. -/
theorem depth_of_translate {query : Query} {document : Document}
    (h : query.translate = .ok document) :
    ∃ bucketNodes metricNodes, buckets query.dimensions = .ok bucketNodes ∧
      metrics query.fields = .ok metricNodes ∧
      document.depth = requestDepth query.sortFields.length query.filterCondition.isSome
        (bucketNodes.map AggregationNode.kind) metricNodes.length ∧
      ∃ compactText prettyText, query.requestText = .ok compactText ∧
        query.requestTextPretty = .ok prettyText ∧
        ∀ text ∈ [compactText, prettyText], Document.ofText text =
          if document.depth ≤ nestingLimit then .ok document else .error (.fault .malformed) := by
  have hlegible := legible_of_translate h
  obtain ⟨bucketNodes, metricNodes, hbuckets, hmetrics, hdepth⟩ := depth_eq_requestDepth h
  refine ⟨bucketNodes, metricNodes, hbuckets, hmetrics, hdepth, document.compact,
    document.pretty, ?_, ?_, ?_⟩
  · rw [requestText, h]
    rfl
  · rw [requestTextPretty, h]
    rfl
  · intro text htext
    simp only [List.mem_cons, List.not_mem_nil, or_false] at htext
    rcases htext with rfl | rfl
    · exact Document.ofText_compact hlegible
    · exact Document.ofText_pretty hlegible

end Query

/-- Two terms buckets and a date histogram over two metrics nest nine levels. -/
theorem depth_mixedLevels :
    mixedLevels.translate = .ok mixedLevelsRequest ∧ mixedLevelsRequest.depth = 9 ∧
      ∃ compactText prettyText, mixedLevels.requestText = .ok compactText ∧
        mixedLevels.requestTextPretty = .ok prettyText ∧
        ∀ text ∈ [compactText, prettyText], Document.ofText text = .ok mixedLevelsRequest := by
  have h : mixedLevels.translate = .ok mixedLevelsRequest := by rfl
  obtain ⟨bucketNodes, metricNodes, hbuckets, hmetrics, hdepth, compactText, prettyText,
    hcompact, hpretty, hread⟩ := Query.depth_of_translate h
  obtain ⟨-, rfl⟩ := (buckets_eq_ok_iff _ _).mp hbuckets
  obtain ⟨-, rfl⟩ := (metrics_eq_ok_iff _ _).mp hmetrics
  have hnine : mixedLevelsRequest.depth = 9 := hdepth.trans rfl
  refine ⟨h, hnine, compactText, prettyText, hcompact, hpretty, ?_⟩
  intro text htext
  rw [hread text htext, hnine]
  rfl

-- One metric below sixty-one terms buckets keeps to the limit; one more bucket does not.
example : requestDepth 0 false (List.replicate 61 .terms) 1 = 126 := by decide
example : requestDepth 0 false (List.replicate 62 .terms) 1 = 128 := by decide

end AggQuery
