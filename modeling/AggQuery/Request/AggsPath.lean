import AggQuery.Aggregation.Node

/-!
# Where the next aggregation goes

`AggsPath` is the key path of the object that holds the next aggregation. Below a terms
bucket that object lies inside the bucket; below any other bucket it lies beside it.
-/

namespace AggQuery

/-- The key under which aggregations stand. -/
def aggsKey : String := "aggs"

/-- The key path of the object that holds the next aggregation. -/
structure AggsPath where
  segments : List String := [aggsKey]
deriving DecidableEq, Inhabited, Repr

namespace AggsPath

/-- The key path of a node's parameters. -/
def nodePath (path : AggsPath) (node : AggregationNode) : List String :=
  path.segments ++ [node.name, node.tag]

/-- The path below a bucket. -/
def descend (path : AggsPath) (bucket : AggregationNode) : AggsPath :=
  if bucket.kind = .terms then ⟨path.segments ++ [bucket.name, aggsKey]⟩
  else ⟨path.segments ++ [aggsKey]⟩

/-- The keys from a bucket's level to the level below the bucket. -/
def childKeys (bucket : AggregationNode) : List String :=
  if bucket.kind = .terms then [bucket.name, aggsKey] else [aggsKey]

theorem descend_eq (path : AggsPath) (bucket : AggregationNode) :
    path.descend bucket = ⟨path.segments ++ childKeys bucket⟩ := by
  unfold descend childKeys
  split <;> rfl

/-- The number of keys of the path. -/
def depth (path : AggsPath) : Nat := path.segments.length

@[simp] theorem depth_descend (path : AggsPath) (bucket : AggregationNode) :
    (path.descend bucket).depth = path.depth + if bucket.kind = .terms then 2 else 1 := by
  unfold descend depth
  split <;> simp

end AggsPath

end AggQuery
