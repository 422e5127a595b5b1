import AggQuery.Aggregation.Kind
import AggQuery.Document.Basic

/-!
# Aggregation nodes

A node describes one aggregation of a request: its name, its kind and its parameters in
order. The builders give the three shapes that a query leads to.
-/

namespace AggQuery

/-- One aggregation of a request. -/
structure AggregationNode where
  name : String
  kind : AggregationKind
  params : Fields := []
deriving DecidableEq, Inhabited, Repr

namespace AggregationNode

/-- Give a parameter a value, in place if it is present. -/
def withParam (node : AggregationNode) (key : String) (value : Document) : AggregationNode :=
  { node with params := node.params.set key value }

/-- Buckets by the values of a script. -/
def termsScript (name script : String) : AggregationNode :=
  { name, kind := .terms, params := [("script", .string script)] }

/-- Buckets by intervals of a date. -/
def dateHistogram (name field interval : String) : AggregationNode :=
  { name, kind := .dateHistogram
    params := [("field", .string field), ("interval", .string interval)] }

/-- A metric over the values of a script. -/
def scriptMetric (kind : AggregationKind) (name script : String) : AggregationNode :=
  { name, kind, params := [("script", .string script)] }

/-- The tag of the node's kind. -/
def tag (node : AggregationNode) : String := node.kind.tag

/-- A node as a document. -/
def toDocument (node : AggregationNode) : Document :=
  .object [
    ("name", .string node.name),
    ("kind", .string node.tag),
    ("params", .object node.params)]

end AggregationNode

end AggQuery
