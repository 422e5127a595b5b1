import AggQuery.Proofs.Document.Insertion
import AggQuery.Request.Translate

/-!
# The tree that the placed aggregations form

Aggregations are placed by one write for each node. `nodeFields` gives the object that
these writes leave under the key of the aggregations, by recursion on the buckets: below a
terms bucket the rest of the tree lies inside the bucket, below any other bucket beside it.

## Implementation notes

All writes but those of the first bucket lie behind that bucket's path or beside its name,
so the induction on the buckets moves the rest of the writes into one object and asks only
that the object has no aggregations yet.
-/

namespace AggQuery

/-- The field of a node, with `below` after its parameters. -/
def AggregationNode.entry (node : AggregationNode) (below : Fields) : String × Document :=
  (node.name, .object ((node.tag, .object node.params) :: below))

/-- The field that holds aggregations; no aggregations, no field. -/
def aggsField (inner : Fields) : Fields :=
  match inner with
  | [] => []
  | first :: rest => [(aggsKey, .object (first :: rest))]

theorem aggsField_eq_ite (inner : Fields) :
    aggsField inner = if inner = [] then [] else [(aggsKey, .object inner)] := by
  cases inner <;> simp [aggsField]

theorem aggsField_of_ne_nil {inner : Fields} (h : inner ≠ []) :
    aggsField inner = [(aggsKey, .object inner)] := by
  rw [aggsField_eq_ite, if_neg h]

/-- The aggregations of buckets, outermost first, and of metrics below the last bucket. -/
def nodeFields (buckets metrics : List AggregationNode) : Fields :=
  match buckets with
  | [] => metrics.map fun metric => metric.entry []
  | bucket :: rest =>
    if bucket.kind = .terms then [bucket.entry (aggsField (nodeFields rest metrics))]
    else bucket.entry [] :: aggsField (nodeFields rest metrics)

theorem nodeFields_eq_nil_iff (buckets metrics : List AggregationNode) :
    nodeFields buckets metrics = [] ↔ buckets = [] ∧ metrics = [] := by
  cases buckets with
  | nil => simp [nodeFields]
  | cons bucket rest =>
      unfold nodeFields
      split <;> simp

/-- The writes that place buckets and metrics from a path on. -/
def placements (path : AggsPath) (buckets metrics : List AggregationNode) :
    List (List String × Document) :=
  match buckets with
  | [] => metrics.map fun metric => (path.nodePath metric, .object metric.params)
  | bucket :: rest =>
    (path.nodePath bucket, .object bucket.params) ::
      placements (path.descend bucket) rest metrics

theorem placeMetrics_eq_insertAll (fields : Fields) (path : AggsPath)
    (metrics : List AggregationNode) :
    placeMetrics fields path metrics = fields.insertAll (placements path [] metrics) := by
  induction metrics generalizing fields with
  | nil => rfl
  | cons metric rest ih => exact ih _

theorem placeAggregations_eq_insertAll (fields : Fields)
    (buckets metrics : List AggregationNode) :
    placeAggregations fields buckets metrics =
      fields.insertAll (placements {} buckets metrics) := by
  have h (path : AggsPath) :
      placeMetrics (placeBuckets fields path buckets).1 (placeBuckets fields path buckets).2
        metrics = fields.insertAll (placements path buckets metrics) := by
    induction buckets generalizing fields path with
    | nil => exact placeMetrics_eq_insertAll fields path metrics
    | cons bucket rest ih => exact ih _ _
  exact h {}

theorem placements_path_ne_nil (path : AggsPath) (buckets metrics : List AggregationNode) :
    ∀ write ∈ placements path buckets metrics, write.1 ≠ [] := by
  induction buckets generalizing path with
  | nil =>
      intro write hwrite
      obtain ⟨metric, _, rfl⟩ := List.mem_map.mp hwrite
      simp [AggsPath.nodePath]
  | cons bucket rest ih =>
      intro write hwrite
      rcases List.mem_cons.mp hwrite with rfl | hrest
      · simp [AggsPath.nodePath]
      · exact ih (path.descend bucket) write hrest

/-- Placing behind a path is placing, behind that path. -/
theorem placements_behind (front segments : List String)
    (buckets metrics : List AggregationNode) :
    placements ⟨front ++ segments⟩ buckets metrics =
      Fields.behind front (placements ⟨segments⟩ buckets metrics) := by
  induction buckets generalizing segments with
  | nil => simp [placements, Fields.behind, AggsPath.nodePath]
  | cons bucket rest ih =>
      have hrest := ih (segments ++ AggsPath.childKeys bucket)
      rw [← List.append_assoc] at hrest
      rw [placements, placements, AggsPath.descend_eq, AggsPath.descend_eq, hrest]
      simp [Fields.behind, AggsPath.nodePath]

/-- Metrics with different names stand side by side, in order. -/
theorem insertAll_entries (inner : Fields) (metrics : List AggregationNode)
    (hnames : (metrics.map AggregationNode.name).Nodup)
    (hnew : ∀ metric ∈ metrics, metric.name ∉ inner.keys) :
    inner.insertAll (metrics.map fun metric =>
        ([metric.name, metric.tag], .object metric.params)) =
      inner ++ metrics.map fun metric => metric.entry [] := by
  induction metrics generalizing inner with
  | nil => simp [Fields.insertAll]
  | cons metric rest ih =>
      obtain ⟨hother, hnames⟩ := List.nodup_cons.mp hnames
      have hmetric : metric.name ∉ inner.keys := hnew metric List.mem_cons_self
      have hinsert : inner.insertAt [metric.name, metric.tag] (.object metric.params) =
          inner ++ [metric.entry []] := by
        rw [Fields.insertAt_cons inner metric.name (by simp), Fields.below_of_notMem hmetric,
          Fields.set_of_notMem _ hmetric]
        rfl
      rw [List.map_cons, Fields.insertAll_cons, hinsert, ih _ hnames]
      · simp
      · intro other hmem
        have hne : other.name ≠ metric.name := by
          intro he
          exact hother (List.mem_map.mpr ⟨other, hmem, he⟩)
        rw [Fields.keys_append]
        simp [hnew other (List.mem_cons_of_mem _ hmem), AggregationNode.entry, hne]

/-- Writes behind the name of a node go after the node's parameters. -/
theorem insertAll_behind_entry (node : AggregationNode)
    {writes : List (List String × Document)} {below : Fields}
    (hpaths : ∀ write ∈ writes, write.1 ≠ [])
    (h : Fields.insertAll [(node.tag, .object node.params)] writes =
      [(node.tag, .object node.params)] ++ below) :
    Fields.insertAll [node.entry []] (Fields.behind [node.name] writes) = [node.entry below] := by
  cases writes with
  | nil =>
      obtain rfl : below = [] := by simpa [Fields.insertAll] using h
      rfl
  | cons write rest =>
      rw [Fields.insertAll_behind _ _ (by simp) hpaths, Fields.modifyAt_cons,
        Fields.modifyAt_nil]
      have hbelow : Fields.below [node.entry []] node.name =
          [(node.tag, .object node.params)] := by
        simp [Fields.below, Fields.get?, AggregationNode.entry]
      rw [hbelow, h]
      simp [Fields.set, AggregationNode.entry]

/-- Placing under a key that no field has appends one field with the tree. Only terms
buckets may be named like the key that holds aggregations, and metrics do not share names. -/
theorem insertAll_placements (fields : Fields) (buckets metrics : List AggregationNode)
    (hfields : aggsKey ∉ fields.keys)
    (hbuckets : ∀ bucket ∈ buckets, bucket.kind ≠ .terms → bucket.name ≠ aggsKey)
    (hmetrics : (metrics.map AggregationNode.name).Nodup) :
    fields.insertAll (placements {} buckets metrics) =
      fields ++ aggsField (nodeFields buckets metrics) := by
  induction buckets generalizing fields with
  | nil =>
      cases metrics with
      | nil => simp [placements, Fields.insertAll, nodeFields, aggsField]
      | cons metric rest =>
          have hbehind : placements {} [] (metric :: rest) =
              Fields.behind [aggsKey] ((metric :: rest).map fun metric =>
                ([metric.name, metric.tag], .object metric.params)) := by
            simp [placements, Fields.behind, AggsPath.nodePath]
          have hentries := insertAll_entries [] (metric :: rest) hmetrics (by simp)
          rw [hbehind, Fields.insertAll_behind _ _ (by simp) (by simp),
            Fields.modifyAt_of_notMem _ hfields, hentries]
          rfl
  | cons bucket rest ih =>
      have hrest : ∀ other ∈ rest, other.kind ≠ .terms → other.name ≠ aggsKey :=
        fun other hother => hbuckets other (List.mem_cons_of_mem _ hother)
      have hbehind : placements {} (bucket :: rest) metrics =
          Fields.behind [aggsKey] (([bucket.name, bucket.tag], .object bucket.params) ::
            placements ⟨AggsPath.childKeys bucket⟩ rest metrics) := by
        rw [placements, AggsPath.descend_eq, placements_behind]
        rfl
      have hbucket : Fields.insertAll [bucket.entry []]
          (placements ⟨AggsPath.childKeys bucket⟩ rest metrics) =
            nodeFields (bucket :: rest) metrics := by
        rw [nodeFields]
        by_cases hterms : bucket.kind = .terms
        · have hkeys : AggsPath.childKeys bucket = [bucket.name] ++ [aggsKey] := if_pos hterms
          have htag : aggsKey ∉ Fields.keys [(bucket.tag, .object bucket.params)] := by
            simp [AggregationNode.tag, hterms, AggregationKind.tag, aggsKey]
          rw [if_pos hterms, hkeys, placements_behind]
          exact insertAll_behind_entry bucket (placements_path_ne_nil _ rest metrics)
            (ih _ htag hrest)
        · have hkeys : AggsPath.childKeys bucket = [aggsKey] := if_neg hterms
          have hname : aggsKey ∉ Fields.keys [bucket.entry []] := by
            simpa [AggregationNode.entry, eq_comm] using
              hbuckets bucket List.mem_cons_self hterms
          rw [if_neg hterms, hkeys]
          exact ih _ hname hrest
      have hpaths : ∀ write ∈ ([bucket.name, bucket.tag], Document.object bucket.params) ::
          placements ⟨AggsPath.childKeys bucket⟩ rest metrics, write.1 ≠ [] :=
        List.forall_mem_cons.mpr ⟨by simp, placements_path_ne_nil _ rest metrics⟩
      rw [hbehind, Fields.insertAll_behind _ _ (by simp) hpaths,
        Fields.modifyAt_of_notMem _ hfields, Fields.insertAll_cons]
      change fields ++ [(aggsKey, .object (Fields.insertAll [bucket.entry []] _))] = _
      rw [hbucket, aggsField_of_ne_nil (by simp [nodeFields_eq_nil_iff])]

theorem placeAggregations_eq (fields : Fields) (buckets metrics : List AggregationNode)
    (hfields : aggsKey ∉ fields.keys)
    (hbuckets : ∀ bucket ∈ buckets, bucket.kind ≠ .terms → bucket.name ≠ aggsKey)
    (hmetrics : (metrics.map AggregationNode.name).Nodup) :
    placeAggregations fields buckets metrics =
      fields ++ aggsField (nodeFields buckets metrics) := by
  rw [placeAggregations_eq_insertAll]
  exact insertAll_placements fields buckets metrics hfields hbuckets hmetrics

end AggQuery
