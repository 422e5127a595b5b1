import AggQuery.Proofs.Request.Text
import AggQuery.Proofs.Request.Tree

/-!
# What a request says about its query

The tree of aggregations determines the nodes that it was made of, whatever their names:
the first key below the first name is a tag, which tells terms from date histograms and
both from metrics. So two queries with one request agree in their page, their sort
criteria, the script of their filter and all their nodes, and the text of a request
determines the request.
-/

namespace AggQuery

/-- Tags tell kinds apart, but for the one kind that shares another's tag. -/
theorem AggregationKind.tag_injOn {kind other : AggregationKind} (hkind : kind ≠ .filter)
    (hother : other ≠ .filter) (h : kind.tag = other.tag) : kind = other := by
  have hread := ofTag?_tag kind
  rw [h, ofTag?_tag other, if_neg hkind, if_neg hother] at hread
  exact (Option.some.inj hread).symm

/-- The kinds of the nodes that dimensions lead to. -/
def IsPlacedBucket (node : AggregationNode) : Prop :=
  node.kind = .terms ∨ node.kind = .dateHistogram

/-- The kinds of the nodes that fields lead to. -/
def IsPlacedMetric (node : AggregationNode) : Prop := node.kind.isMetric = true

theorem isPlacedBucket_bucketNode (dimension : Expr) :
    IsPlacedBucket (bucketNode dimension) := by
  unfold bucketNode
  split
  · exact Or.inr rfl
  · exact Or.inl rfl

theorem isMetric_of_metricKind? {function : String} {kind : AggregationKind}
    (h : metricKind? function = some kind) : kind.isMetric = true := by
  unfold metricKind? at h
  split at h <;> cases h <;> rfl

theorem isPlacedMetric_of_metricNode? {field : Expr} {node : AggregationNode}
    (h : metricNode? field = some node) : IsPlacedMetric node := by
  unfold metricNode? at h
  split at h
  · obtain ⟨kind, hkind, rfl⟩ := Option.map_eq_some_iff.mp h
    exact isMetric_of_metricKind? hkind
  · cases h

theorem IsPlacedBucket.ne_filter {node : AggregationNode} (h : IsPlacedBucket node) :
    node.kind ≠ .filter := by
  rcases h with hkind | hkind <;> simp [hkind]

theorem IsPlacedMetric.ne_filter {node : AggregationNode} (h : IsPlacedMetric node) :
    node.kind ≠ .filter := by
  intro hkind
  rw [IsPlacedMetric, hkind] at h
  cases h

theorem IsPlacedBucket.kind_ne_metric {bucket metric : AggregationNode}
    (hbucket : IsPlacedBucket bucket) (hmetric : IsPlacedMetric metric) :
    bucket.kind ≠ metric.kind := by
  intro hkind
  rw [IsPlacedMetric, ← hkind] at hmetric
  rcases hbucket with h | h <;> rw [h] at hmetric <;> cases hmetric

/-- The field of a node determines the node and what stands after its parameters. -/
theorem AggregationNode.entry_inj {node other : AggregationNode} {below under : Fields}
    (hnode : node.kind ≠ .filter) (hother : other.kind ≠ .filter)
    (h : node.entry below = other.entry under) : node = other ∧ below = under := by
  obtain ⟨name, kind, params⟩ := node
  obtain ⟨otherName, otherKind, otherParams⟩ := other
  simp only [AggregationNode.entry, AggregationNode.tag, Prod.mk.injEq, Document.object.injEq,
    List.cons.injEq] at h
  obtain ⟨rfl, ⟨htag, rfl⟩, rfl⟩ := h
  obtain rfl := AggregationKind.tag_injOn hnode hother htag
  exact ⟨rfl, rfl⟩

theorem aggsField_inj {inner other : Fields} (h : aggsField inner = aggsField other) :
    inner = other := by
  cases inner <;> cases other <;> simp_all [aggsField]

theorem metricEntries_inj {metrics others : List AggregationNode}
    (hmetrics : ∀ metric ∈ metrics, IsPlacedMetric metric)
    (hothers : ∀ metric ∈ others, IsPlacedMetric metric)
    (h : metrics.map (AggregationNode.entry · []) = others.map (AggregationNode.entry · [])) :
    metrics = others := by
  induction metrics generalizing others with
  | nil => exact (List.map_eq_nil_iff.mp h.symm).symm
  | cons metric rest ih =>
      cases others with
      | nil => simp at h
      | cons other more =>
          obtain ⟨hmetric, hrest⟩ := List.forall_mem_cons.mp hmetrics
          obtain ⟨hother, hmore⟩ := List.forall_mem_cons.mp hothers
          obtain ⟨hentry, htail⟩ := List.cons.inj h
          obtain ⟨rfl, _⟩ :=
            AggregationNode.entry_inj hmetric.ne_filter hother.ne_filter hentry
          rw [ih hrest hmore htail]

/-- The first field of a tree tells a bucket, which is the first node, from a metric. -/
theorem nodeFields_cons (bucket : AggregationNode) (rest metrics : List AggregationNode) :
    ∃ below beside, nodeFields (bucket :: rest) metrics = bucket.entry below :: beside ∧
      aggsField (nodeFields rest metrics) = if bucket.kind = .terms then below else beside := by
  rw [nodeFields]
  by_cases hterms : bucket.kind = .terms
  · exact ⟨_, [], if_pos hterms, (if_pos hterms).symm⟩
  · exact ⟨[], _, if_neg hterms, (if_neg hterms).symm⟩

theorem nodeFields_cons_ne_metrics {bucket : AggregationNode}
    {rest metrics others : List AggregationNode} (hbucket : IsPlacedBucket bucket)
    (hothers : ∀ metric ∈ others, IsPlacedMetric metric) :
    nodeFields (bucket :: rest) metrics ≠ nodeFields [] others := by
  intro h
  obtain ⟨below, beside, htree, _⟩ := nodeFields_cons bucket rest metrics
  rw [htree, nodeFields] at h
  cases others with
  | nil => cases h
  | cons other others =>
      have hother := hothers other List.mem_cons_self
      obtain ⟨rfl, _⟩ := AggregationNode.entry_inj hbucket.ne_filter hother.ne_filter
        (List.cons.inj h).1
      exact hbucket.kind_ne_metric hother rfl

/-- The tree of aggregations determines its buckets and its metrics. -/
theorem nodeFields_inj {buckets others metrics otherMetrics : List AggregationNode}
    (hbuckets : ∀ bucket ∈ buckets, IsPlacedBucket bucket)
    (hothers : ∀ bucket ∈ others, IsPlacedBucket bucket)
    (hmetrics : ∀ metric ∈ metrics, IsPlacedMetric metric)
    (hotherMetrics : ∀ metric ∈ otherMetrics, IsPlacedMetric metric)
    (h : nodeFields buckets metrics = nodeFields others otherMetrics) :
    buckets = others ∧ metrics = otherMetrics := by
  induction buckets generalizing others with
  | nil =>
      cases others with
      | nil => exact ⟨rfl, metricEntries_inj hmetrics hotherMetrics h⟩
      | cons other rest =>
          have hother := hothers other List.mem_cons_self
          exact absurd h.symm (nodeFields_cons_ne_metrics hother hmetrics)
  | cons bucket rest ih =>
      obtain ⟨hbucket, hrest⟩ := List.forall_mem_cons.mp hbuckets
      cases others with
      | nil => exact absurd h (nodeFields_cons_ne_metrics hbucket hotherMetrics)
      | cons other more =>
          obtain ⟨hother, hmore⟩ := List.forall_mem_cons.mp hothers
          obtain ⟨below, beside, htree, hinner⟩ := nodeFields_cons bucket rest metrics
          obtain ⟨under, besides, hotherTree, hotherInner⟩ :=
            nodeFields_cons other more otherMetrics
          rw [htree, hotherTree] at h
          obtain ⟨hentry, rfl⟩ := List.cons.inj h
          obtain ⟨rfl, rfl⟩ :=
            AggregationNode.entry_inj hbucket.ne_filter hother.ne_filter hentry
          obtain ⟨rfl, rfl⟩ := ih hrest hmore (aggsField_inj (hinner.trans hotherInner.symm))
          exact ⟨rfl, rfl⟩

/-- The keyword of a direction determines the direction. -/
theorem SortField.order_inj {a b : SortField} (h : a.order = b.order) :
    a.ascending = b.ascending := by
  cases ha : a.ascending <;> cases hb : b.ascending <;> simp_all [order]

theorem sortDocument_inj {sortFields others : List SortField}
    (h : sortDocument sortFields = sortDocument others) : sortFields = others := by
  have hentries := Document.array.inj h
  clear h
  induction sortFields generalizing others with
  | nil => exact (List.map_eq_nil_iff.mp hentries.symm).symm
  | cons sortField rest ih =>
      cases others with
      | nil => simp at hentries
      | cons other more =>
          obtain ⟨name, ascending⟩ := sortField
          obtain ⟨otherName, otherAscending⟩ := other
          obtain ⟨hentry, htail⟩ := List.cons.inj hentries
          simp only [Document.object.injEq, List.cons.injEq, Prod.mk.injEq, and_true,
            Document.string.injEq] at hentry
          obtain ⟨rfl, horder⟩ := hentry
          obtain rfl : ascending = otherAscending := SortField.order_inj horder
          rw [ih htail]

namespace Query

/-- Page and sort criteria can be told from the first fields. -/
theorem pageFields_inj {a b : Query} (h : a.pageFields = b.pageFields) :
    a.offset = b.offset ∧ a.limit = b.limit ∧ a.sortFields = b.sortFields := by
  simp only [pageFields, Document.ofInt, List.cons.injEq, Prod.mk.injEq, true_and, and_true,
    Document.number.injEq, Number.integer.injEq, Int.natCast_inj, UInt64.toNat_inj] at h
  obtain ⟨hoffset, hlimit, hsort⟩ := h
  exact ⟨hoffset, hlimit, sortDocument_inj hsort⟩

/-- The filter and the aggregations have different keys, so neither passes for the other. -/
theorem filterFields_append_inj {a b : Query} {inner other : Fields}
    (h : a.filterFields ++ aggsField inner = b.filterFields ++ aggsField other) :
    a.filterCondition.map Expr.script = b.filterCondition.map Expr.script ∧ inner = other := by
  have hdifferent (condition : Expr) (fields : Fields) (rest : Fields) :
      ("query", Document.object [("bool", .object [("filter", .object [
        ("script", scriptParams condition)])])]) :: rest ≠ aggsField fields := by
    cases fields <;> simp [aggsField, aggsKey]
  unfold filterFields at h
  cases ha : a.filterCondition with
  | none =>
      cases hb : b.filterCondition with
      | none =>
          rw [ha, hb] at h
          exact ⟨rfl, aggsField_inj h⟩
      | some condition =>
          rw [ha, hb] at h
          exact absurd h.symm (hdifferent condition inner _)
  | some condition =>
      cases hb : b.filterCondition with
      | none =>
          rw [ha, hb] at h
          exact absurd h (hdifferent condition other _)
      | some condition' =>
          rw [ha, hb] at h
          obtain ⟨hfilter, haggs⟩ := List.cons.inj h
          have hscript : condition.script = condition'.script := by
            simpa [scriptParams] using hfilter
          exact ⟨congrArg some hscript, aggsField_inj haggs⟩

theorem requestHead_append_inj {a b : Query} {inner other : Fields}
    (h : requestHead a ++ aggsField inner = requestHead b ++ aggsField other) :
    (a.offset = b.offset ∧ a.limit = b.limit ∧ a.sortFields = b.sortFields) ∧
      a.filterCondition.map Expr.script = b.filterCondition.map Expr.script ∧ inner = other := by
  rw [requestHead_eq, requestHead_eq, List.append_assoc, List.append_assoc] at h
  obtain ⟨hpage, hrest⟩ := List.append_inj h rfl
  exact ⟨pageFields_inj hpage, filterFields_append_inj hrest⟩

theorem requestHead_congr {a b : Query} (hoffset : a.offset = b.offset)
    (hlimit : a.limit = b.limit) (hsort : a.sortFields = b.sortFields)
    (hfilter : a.filterCondition.map Expr.script = b.filterCondition.map Expr.script) :
    requestHead a = requestHead b := by
  have hpage : a.pageFields = b.pageFields := by
    rw [pageFields, pageFields, hoffset, hlimit, hsort]
  have hfilters : a.filterFields = b.filterFields := by
    unfold filterFields
    cases ha : a.filterCondition <;> cases hb : b.filterCondition <;>
      simp_all [scriptParams]
  rw [requestHead_eq, requestHead_eq, hpage, hfilters]

/-- Requests are one document, and have one text, exactly when their queries have one page,
the same sort criteria, the same filter script and the same nodes in the same order. -/
theorem request_eq_iff {a b : Query} {request other : Document}
    (ha : a.translate = .ok request) (hb : b.translate = .ok other) :
    (request.compact = other.compact ↔ request = other) ∧
      (request = other ↔
        a.offset = b.offset ∧ a.limit = b.limit ∧ a.sortFields = b.sortFields ∧
          a.filterCondition.map Expr.script = b.filterCondition.map Expr.script ∧
          buckets a.dimensions = buckets b.dimensions ∧ metrics a.fields = metrics b.fields) := by
  refine ⟨compact_inj_of_translate ha hb, ?_⟩
  obtain ⟨bucketNodes, metricNodes, hbuckets, hmetrics, rfl⟩ := translate_eq_head_append ha
  obtain ⟨otherBuckets, otherMetrics, hotherBuckets, hotherMetrics, rfl⟩ :=
    translate_eq_head_append hb
  rw [hbuckets, hotherBuckets, hmetrics, hotherMetrics]
  constructor
  · intro h
    obtain ⟨⟨hoffset, hlimit, hsort⟩, hfilter, htree⟩ :=
      requestHead_append_inj (Document.object.inj h)
    obtain ⟨rfl, rfl⟩ := nodeFields_inj
      (forall_mem_buckets isPlacedBucket_bucketNode hbuckets)
      (forall_mem_buckets isPlacedBucket_bucketNode hotherBuckets)
      (forall_mem_metrics isPlacedMetric_of_metricNode? hmetrics)
      (forall_mem_metrics isPlacedMetric_of_metricNode? hotherMetrics) htree
    exact ⟨hoffset, hlimit, hsort, hfilter, rfl, rfl⟩
  · rintro ⟨hoffset, hlimit, hsort, hfilter, hnodes, hothers⟩
    obtain rfl := Except.ok.inj hnodes
    obtain rfl := Except.ok.inj hothers
    rw [requestHead_congr hoffset hlimit hsort hfilter]

/-- Leaving out the repeated metric of `mixedLevels` leaves its request. -/
theorem request_eq_iff_mixedLevels :
    mixedLevels.translate = .ok mixedLevelsRequest ∧
      { mixedLevels with fields := mixedLevels.fields.take 3 }.translate =
        .ok mixedLevelsRequest ∧
      metrics mixedLevels.fields = metrics (mixedLevels.fields.take 3) := by
  have hall : mixedLevels.translate = .ok mixedLevelsRequest := by rfl
  have hsome : { mixedLevels with fields := mixedLevels.fields.take 3 }.translate =
      .ok mixedLevelsRequest := by rfl
  obtain ⟨_, _, _, _, _, hmetrics⟩ := (request_eq_iff hall hsome).2.mp rfl
  exact ⟨hall, hsome, hmetrics⟩

end Query

end AggQuery
