import AggQuery.Proofs.Document.KeyPaths
import AggQuery.Proofs.Request.Placement

/-!
# The key paths of placed nodes

Aggregations of any kinds and names can be placed in any object. As long as no bucket but a
terms bucket is named like the key that holds aggregations, and no two metrics have both name
and tag in common, the key paths of all nodes part from each other, so every node is found
where it was placed and nothing else changes (`placeAggregations_keeps`).

## Implementation notes

The buckets and metrics are placed by one sequence of writes (`placements`). That their paths
part is a statement about the first write and all later ones, which lie below the path that
leads down from the first bucket.
-/

namespace AggQuery

namespace Fields

/-- Nothing changes at a path that parts from the paths of all writes. -/
theorem at?_insertAll_of_parted (fields : Fields) {writes : List (List String × Document)}
    {path : List String} (h : ∀ write ∈ writes, Parted write.1 path) :
    (Document.object (fields.insertAll writes)).at? path = (Document.object fields).at? path := by
  induction writes generalizing fields with
  | nil => rfl
  | cons write rest ih =>
      obtain ⟨hwrite, hrest⟩ := List.forall_mem_cons.mp h
      rw [insertAll_cons, ih _ hrest, at?_insertAt_of_parted fields hwrite]

/-- Where the paths of all writes part, every written value is read back. -/
theorem at?_insertAll_of_mem (fields : Fields) {writes : List (List String × Document)}
    (hne : ∀ write ∈ writes, write.1 ≠ [])
    (h : writes.Pairwise fun write other => Parted other.1 write.1)
    {write : List String × Document} (hmem : write ∈ writes) :
    (Document.object (fields.insertAll writes)).at? write.1 = some write.2 := by
  induction writes generalizing fields with
  | nil => cases hmem
  | cons first rest ih =>
      obtain ⟨hfirst, hrest⟩ := List.forall_mem_cons.mp hne
      obtain ⟨hparted, hpairwise⟩ := List.pairwise_cons.mp h
      rw [insertAll_cons]
      rcases List.mem_cons.mp hmem with rfl | hmem
      · rw [at?_insertAll_of_parted _ hparted, at?_insertAt_self fields hfirst]
      · exact ih _ hrest hpairwise hmem

/-- Setting a key leaves the fields of all other keys, in order. -/
theorem filter_set (fields : Fields) (key : String) (value : Document) :
    (fields.set key value).filter (·.1 ≠ key) = fields.filter (·.1 ≠ key) := by
  induction fields with
  | nil => simp [set]
  | cons entry rest ih =>
      obtain ⟨k, old⟩ := entry
      by_cases h : k = key
      · simp [set, h]
      · simp only [set, if_neg h, List.filter_cons, ih]

/-- Writes below a key leave the fields of all other keys, in order. -/
theorem filter_insertAll (fields : Fields) {writes : List (List String × Document)}
    {key : String} (h : ∀ write ∈ writes, [key] <+: write.1) :
    (fields.insertAll writes).filter (·.1 ≠ key) = fields.filter (·.1 ≠ key) := by
  induction writes generalizing fields with
  | nil => rfl
  | cons write rest ih =>
      obtain ⟨path, value⟩ := write
      obtain ⟨⟨tail, hpath⟩, hrest⟩ := List.forall_mem_cons.mp h
      obtain rfl : key :: tail = path := hpath
      obtain ⟨written, hwritten⟩ := insertAt_cons_eq_set fields key tail value
      rw [insertAll_cons, ih _ hrest, hwritten, filter_set]

end Fields

namespace AggsPath

/-- The path below buckets, one after the other. -/
def descendAll (path : AggsPath) (buckets : List AggregationNode) : AggsPath :=
  buckets.foldl descend path

@[simp] theorem descendAll_nil (path : AggsPath) : path.descendAll [] = path := rfl

end AggsPath

/-- The writes are one for each bucket, from the path below the buckets before it, and one for
each metric, from the path below all buckets. -/
theorem mem_placements_iff {path : AggsPath} {buckets metrics : List AggregationNode}
    {write : List String × Document} :
    write ∈ placements path buckets metrics ↔
      (∃ before bucket after, buckets = before ++ bucket :: after ∧
        write = ((path.descendAll before).nodePath bucket, .object bucket.params)) ∨
      ∃ metric ∈ metrics,
        write = ((path.descendAll buckets).nodePath metric, .object metric.params) := by
  induction buckets generalizing path with
  | nil => simp [placements, eq_comm]
  | cons first rest ih =>
      rw [placements, List.mem_cons, ih, ← or_assoc]
      refine or_congr ?_ Iff.rfl
      constructor
      · rintro (rfl | ⟨before, bucket, after, rfl, rfl⟩)
        · exact ⟨[], first, rest, rfl, rfl⟩
        · exact ⟨first :: before, bucket, after, rfl, rfl⟩
      · rintro ⟨before, bucket, after, hsplit, rfl⟩
        cases before with
        | nil =>
            obtain ⟨rfl, rfl⟩ := List.cons.inj hsplit
            exact Or.inl rfl
        | cons _ before =>
            obtain ⟨rfl, rfl⟩ := List.cons.inj hsplit
            exact Or.inr ⟨before, bucket, after, rfl, rfl⟩

/-- All writes from a path on lie below it. -/
theorem prefix_of_mem_placements {path : AggsPath} {buckets metrics : List AggregationNode} :
    ∀ write ∈ placements path buckets metrics, path.segments <+: write.1 := by
  induction buckets generalizing path with
  | nil =>
      intro write hwrite
      obtain ⟨metric, -, rfl⟩ := List.mem_map.mp hwrite
      exact List.prefix_append _ _
  | cons bucket rest ih =>
      intro write hwrite
      rcases List.mem_cons.mp hwrite with rfl | hrest
      · exact List.prefix_append _ _
      · refine List.IsPrefix.trans ?_ (ih write hrest)
        rw [AggsPath.descend_eq]
        exact List.prefix_append _ _

/-- The key path of a bucket parts from the path below the bucket. -/
theorem parted_nodePath_descend (path : AggsPath) {bucket : AggregationNode}
    (h : bucket.kind ≠ .terms → bucket.name ≠ aggsKey) :
    Parted (path.nodePath bucket) (path.descend bucket).segments := by
  rw [AggsPath.descend_eq, AggsPath.nodePath, Parted.append_left_iff, AggsPath.childKeys]
  by_cases hterms : bucket.kind = .terms
  · have htag : bucket.tag ≠ aggsKey := by
      rw [AggregationNode.tag, hterms]
      decide
    rw [if_pos hterms]
    exact .of_length_eq rfl (by simpa using htag)
  · rw [if_neg hterms]
    simp [Parted, h hterms, (h hterms).symm]

/-- The key paths of all nodes part from each other. -/
theorem placements_parted (path : AggsPath) {buckets metrics : List AggregationNode}
    (hbuckets : ∀ bucket ∈ buckets, bucket.kind ≠ .terms → bucket.name ≠ aggsKey)
    (hmetrics : metrics.Pairwise fun metric other =>
      ¬(metric.name = other.name ∧ metric.tag = other.tag)) :
    (placements path buckets metrics).Pairwise fun write other => Parted other.1 write.1 := by
  induction buckets generalizing path with
  | nil =>
      refine List.pairwise_map.mpr (hmetrics.imp fun {metric other} hne => ?_)
      refine (Parted.append_left_iff path.segments).mpr (.of_length_eq rfl ?_)
      simpa [eq_comm] using hne
  | cons bucket rest ih =>
      obtain ⟨hbucket, hrest⟩ := List.forall_mem_cons.mp hbuckets
      refine List.pairwise_cons.mpr ⟨fun write hwrite => ?_, ih (path.descend bucket) hrest⟩
      exact ((parted_nodePath_descend path hbucket).extend
        (prefix_of_mem_placements write hwrite)).symm

/-- Placing buckets and metrics in an object: each bucket is found at its key path, counted
from the path below the buckets before it, and each metric at its key path below all buckets;
whatever parts from these paths is as before, and so are the fields of all keys but the one of
the aggregations, in order. -/
theorem placeAggregations_keeps (fields : Fields) {buckets metrics : List AggregationNode}
    (hbuckets : ∀ bucket ∈ buckets, bucket.kind ≠ .terms → bucket.name ≠ aggsKey)
    (hmetrics : metrics.Pairwise fun metric other =>
      ¬(metric.name = other.name ∧ metric.tag = other.tag)) :
    (∀ before bucket after, buckets = before ++ bucket :: after →
      (Document.object (placeAggregations fields buckets metrics)).at?
        ((AggsPath.descendAll {} before).nodePath bucket) = some (.object bucket.params)) ∧
    (∀ metric ∈ metrics,
      (Document.object (placeAggregations fields buckets metrics)).at?
        ((AggsPath.descendAll {} buckets).nodePath metric) = some (.object metric.params)) ∧
    (∀ path,
      (∀ before bucket after, buckets = before ++ bucket :: after →
        Parted ((AggsPath.descendAll {} before).nodePath bucket) path) →
      (∀ metric ∈ metrics, Parted ((AggsPath.descendAll {} buckets).nodePath metric) path) →
      (Document.object (placeAggregations fields buckets metrics)).at? path =
        (Document.object fields).at? path) ∧
    (placeAggregations fields buckets metrics).filter (·.1 ≠ aggsKey) =
      fields.filter (·.1 ≠ aggsKey) := by
  have hread {write : List String × Document} (hmem : write ∈ placements {} buckets metrics) :
      (Document.object (placeAggregations fields buckets metrics)).at? write.1 =
        some write.2 := by
    rw [placeAggregations_eq_insertAll]
    exact Fields.at?_insertAll_of_mem fields (placements_path_ne_nil _ _ _)
      (placements_parted {} hbuckets hmetrics) hmem
  refine ⟨?_, ?_, ?_, ?_⟩
  · intro before bucket after hsplit
    exact hread (mem_placements_iff.mpr (Or.inl ⟨before, bucket, after, hsplit, rfl⟩))
  · intro metric hmem
    exact hread (mem_placements_iff.mpr (Or.inr ⟨metric, hmem, rfl⟩))
  · intro path hpaths hmetricPaths
    rw [placeAggregations_eq_insertAll]
    apply Fields.at?_insertAll_of_parted
    intro write hwrite
    rcases mem_placements_iff.mp hwrite with ⟨before, bucket, after, hsplit, rfl⟩ |
      ⟨metric, hmem, rfl⟩
    · exact hpaths before bucket after hsplit
    · exact hmetricPaths metric hmem
  · rw [placeAggregations_eq_insertAll]
    exact Fields.filter_insertAll fields prefix_of_mem_placements

/-- Buckets that share names and a tag, the first of them named like the key that holds
aggregations. -/
def crowdedBuckets : List AggregationNode := [
  .termsScript "aggs" "x",
  { name := "range", kind := .filter, params := [("from", .ofInt 1)] },
  { name := "range", kind := .dateRange, params := [("to", .ofInt 2)] }]

/-- Two metrics of one name. -/
def crowdedMetrics : List AggregationNode :=
  [.scriptMetric .sum "range" "y", .scriptMetric .avg "range" "y"]

theorem crowdedNodes_kept :
    (∀ bucket ∈ crowdedBuckets, bucket.kind ≠ .terms → bucket.name ≠ aggsKey) ∧
      (crowdedMetrics.Pairwise fun metric other =>
        ¬(metric.name = other.name ∧ metric.tag = other.tag)) ∧
      (Document.object (placeAggregations [("aggs", .string "old"), ("size", .ofInt 3)]
        crowdedBuckets crowdedMetrics)).at?
          ["aggs", "aggs", "aggs", "aggs", "range", "date_range"] =
            some (.object [("to", .ofInt 2)]) ∧
      (Document.object (placeAggregations [("aggs", .string "old"), ("size", .ofInt 3)]
        crowdedBuckets crowdedMetrics)).at?
          ["aggs", "aggs", "aggs", "aggs", "aggs", "range", "avg"] =
            some (.object [("script", .string "y")]) := by
  have hbuckets : ∀ bucket ∈ crowdedBuckets, bucket.kind ≠ .terms → bucket.name ≠ aggsKey := by
    decide
  have hmetrics : crowdedMetrics.Pairwise fun metric other =>
      ¬(metric.name = other.name ∧ metric.tag = other.tag) := by decide
  obtain ⟨hread, hreadMetric, -, -⟩ :=
    placeAggregations_keeps [("aggs", .string "old"), ("size", .ofInt 3)] hbuckets hmetrics
  exact ⟨hbuckets, hmetrics, hread (crowdedBuckets.take 2) _ [] rfl,
    hreadMetric (.scriptMetric .avg "range" "y") (by simp [crowdedMetrics])⟩

end AggQuery
