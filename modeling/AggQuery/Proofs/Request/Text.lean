import AggQuery.Proofs.Aggregation.Descriptors
import AggQuery.Proofs.Document.Blanks
import AggQuery.Proofs.Document.Legible
import AggQuery.Proofs.Document.Reading
import AggQuery.Proofs.Request.Placement

/-!
# The text of a request

A request is written key path by key path, so no object of it has a key twice, and its
only numbers are the two of the page. So both its texts read back, no two requests share
one, and the indented text is the compact one with blanks between the lexemes.
-/

namespace AggQuery

open Document Lexeme

/-- The parameters of a node can be read back from their text. -/
def AggregationNode.LegibleParams (node : AggregationNode) : Prop :=
  node.params.Legible NumberReads

theorem legibleParams_bucketNode (dimension : Expr) : (bucketNode dimension).LegibleParams := by
  unfold bucketNode
  split
  · next date interval _ =>
      refine ⟨?_, ?_⟩
      · show ["field", "interval"].Nodup
        decide
      · intro entry hentry
        rcases List.mem_cons.mp hentry with rfl | hentry
        · exact .string _
        · obtain rfl := List.mem_singleton.mp hentry
          exact .string _
  · exact Fields.legible_singleton _ (.string _)

theorem legibleParams_metricNode? {field : Expr} {node : AggregationNode}
    (h : metricNode? field = some node) : node.LegibleParams := by
  unfold metricNode? at h
  split at h
  · obtain ⟨kind, _, rfl⟩ := Option.map_eq_some_iff.mp h
    exact Fields.legible_singleton _ (.string _)
  · cases h

theorem legible_requestHead (query : Query) : (requestHead query).Legible NumberReads := by
  have hpage : Fields.Legible NumberReads [
      ("from", .ofInt query.offset.toNat),
      ("size", .ofInt query.limit.toNat),
      ("sort", sortDocument query.sortFields)] := by
    refine ⟨by simp, ?_⟩
    intro entry hentry
    simp only [List.mem_cons, List.not_mem_nil, or_false] at hentry
    rcases hentry with rfl | rfl | rfl
    · exact .number (numberReads_ofNat query.offset.toNat_lt_size)
    · exact .number (numberReads_ofNat query.limit.toNat_lt_size)
    · refine .array ?_
      intro item hitem
      obtain ⟨sortField, _, rfl⟩ := List.mem_map.mp hitem
      exact (Fields.legible_singleton _ (.string _)).object
  unfold requestHead
  split
  · exact hpage.insertAt _ (.string _)
  · exact hpage

theorem legible_placements (path : AggsPath) {buckets metrics : List AggregationNode}
    (hbuckets : ∀ bucket ∈ buckets, bucket.LegibleParams)
    (hmetrics : ∀ metric ∈ metrics, metric.LegibleParams) :
    ∀ write ∈ placements path buckets metrics, write.2.Legible NumberReads := by
  induction buckets generalizing path with
  | nil =>
      intro write hwrite
      obtain ⟨metric, hmetric, rfl⟩ := List.mem_map.mp hwrite
      exact (hmetrics metric hmetric).object
  | cons bucket rest ih =>
      obtain ⟨hbucket, hrest⟩ := List.forall_mem_cons.mp hbuckets
      intro write hwrite
      rcases List.mem_cons.mp hwrite with rfl | hwrite
      · exact hbucket.object
      · exact ih (path.descend bucket) hrest write hwrite

namespace Query

/-- A request can be read back from its text. -/
theorem legible_of_translate {query : Query} {document : Document}
    (h : query.translate = .ok document) : document.Legible NumberReads := by
  obtain ⟨bucketNodes, metricNodes, hbuckets, hmetrics, rfl⟩ :=
    (query.translate_eq_ok_iff document).mp h
  rw [placeAggregations_eq_insertAll]
  refine ((legible_requestHead query).insertAll (legible_placements {} ?_ ?_)).object
  · exact forall_mem_buckets legibleParams_bucketNode hbuckets
  · exact forall_mem_metrics legibleParams_metricNode? hmetrics

/-- Requests with one text are one document. -/
theorem compact_inj_of_translate {a b : Query} {request other : Document}
    (ha : a.translate = .ok request) (hb : b.translate = .ok other) :
    request.compact = other.compact ↔ request = other := by
  constructor
  · exact compact_injective_of_legible (legible_of_translate ha) (legible_of_translate hb)
  · intro h
    rw [h]

/-- Both texts of a request are there and read back as the request, with every object's
fields in their order, and without its blanks outside of strings the indented text is the
compact one. -/
theorem requestTexts_denote {query : Query} {document : Document}
    (h : query.translate = .ok document) :
    ∃ compactText prettyText, query.requestText = .ok compactText ∧
      query.requestTextPretty = .ok prettyText ∧
      Document.parse compactText = .ok document ∧ Document.parse prettyText = .ok document ∧
      Document.withoutBlanks prettyText = compactText := by
  have hlegible := legible_of_translate h
  refine ⟨document.compact, document.pretty, ?_, ?_, parse_compact hlegible,
    parse_pretty hlegible, withoutBlanks_pretty document⟩
  · rw [requestText, h]
    rfl
  · rw [requestTextPretty, h]
    rfl

end Query

/-- A query whose names and constants hold quotes, backslashes, controls, line breaks and
punctuation of document text. -/
def punctuated : Query where
  offset := 18446744073709551615
  sortFields := [{ name := "a\"b\\" }]
  filterCondition := some
    (.binary .neq (.field "x: [1, \x7b") (.literal (.string " ]\n\t\x01 ")))
  dimensions := [.field "\"\x7d, \"ü"]
  fields := [.call "max" [.field "\r\n"]]

/-- The request of `punctuated`. -/
def punctuatedRequest : Document :=
  .object [
    ("from", .ofInt 18446744073709551615),
    ("size", .ofInt 0),
    ("sort", .array [.object [("a\"b\\", .string "asc")]]),
    ("query", .object [("bool", .object [("filter", .object [("script",
      .object [("script", .string "\"x: [1, \x7b\" != ' ]\n\t\x01 '")])])])]),
    ("aggs", .object [("\"\\\"\x7d, \\\"ü\"", .object [
      ("terms", .object [("script", .string "\"\\\"\x7d, \\\"ü\"")]),
      ("aggs", .object [("max(\"\r\n\")", .object [
        ("max", .object [("script", .string "\"\r\n\"")])])])])])]

theorem punctuatedRequest_denoted :
    punctuated.translate = .ok punctuatedRequest ∧
      ∃ compactText prettyText, punctuated.requestText = .ok compactText ∧
        punctuated.requestTextPretty = .ok prettyText ∧
        Document.parse compactText = .ok punctuatedRequest ∧
        Document.parse prettyText = .ok punctuatedRequest ∧
        Document.withoutBlanks prettyText = compactText :=
  have h : punctuated.translate = .ok punctuatedRequest := by rfl
  ⟨h, Query.requestTexts_denote h⟩

end AggQuery
