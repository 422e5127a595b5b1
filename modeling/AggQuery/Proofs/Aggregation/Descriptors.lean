import AggQuery.Aggregation.Descriptors

/-!
# What the builders accept

A fault of a dimension or field is the error that it causes behind the entries before it.
The builders report the first fault of their list (`bucketsAfter_eq`, `metricsAfter_eq`),
and a list without one becomes the nodes of its entries: one for each dimension, and one
for each call among the fields, without those that repeat an earlier name.

## Implementation notes

A builder remembers the names so far and a fault speaks of the entries so far. The two
agree as sets, which is all that the lemmas on `bucketsAfter` and `metricsAfter` ask.
-/

namespace AggQuery

namespace Expr

/-- Date and interval of a date histogram. -/
def dateHistogramArguments? : Expr → Option (Expr × Expr)
  | .call name [date, interval] =>
    if name = "date_histogram" then some (date, interval) else none
  | _ => none

/-- Whether a dimension is a call of another function than `date_histogram`. -/
def isForeignCall : Expr → Bool
  | .call name _ => name ≠ "date_histogram"
  | _ => false

theorem isForeignCall_iff (e : Expr) :
    e.isForeignCall = true ↔ ∃ name args, e = .call name args ∧ name ≠ "date_histogram" := by
  cases e <;> simp [isForeignCall]

end Expr

/-- The node of a dimension that is no foreign call. -/
def bucketNode (dimension : Expr) : AggregationNode :=
  match dimension.dateHistogramArguments? with
  | some (date, interval) =>
    .dateHistogram dimension.script date.script interval.script
  | none => .termsScript dimension.script dimension.script

@[simp] theorem bucketNode_name (dimension : Expr) :
    (bucketNode dimension).name = dimension.script := by
  unfold bucketNode
  split <;> rfl

theorem bucketOf_eq (dimension : Expr) :
    bucketOf dimension =
      if dimension.isForeignCall then .error (.unsupportedBucket dimension.script)
      else .ok (bucketNode dimension) := by
  cases dimension with
  | call name args =>
      by_cases h : name = "date_histogram"
      · subst h
        match args with
        | [] | [_] | [_, _] | _ :: _ :: _ :: _ =>
          simp [bucketOf, Expr.isForeignCall, bucketNode, Expr.dateHistogramArguments?]
      · simp [bucketOf, Expr.isForeignCall, h]
  | _ => simp [bucketOf, Expr.isForeignCall, bucketNode, Expr.dateHistogramArguments?]

/-- The functions that compute a metric. -/
def metricFunctions : List String :=
  ["avg", "cardinality", "sum", "max", "min", "top", "count", "stats", "extended_stats"]

theorem metricKind?_eq_none_iff (function : String) :
    metricKind? function = none ↔ function ∉ metricFunctions := by
  unfold metricKind? metricFunctions
  split <;> simp_all

theorem mem_metricFunctions_of_metricKind? {function : String} {kind : AggregationKind}
    (h : metricKind? function = some kind) : function ∈ metricFunctions := by
  apply Decidable.not_not.mp
  rw [← metricKind?_eq_none_iff, h]
  exact Option.some_ne_none kind

/-- The node of a field that is a call of a metric. -/
def metricNode? (field : Expr) : Option AggregationNode :=
  match field with
  | .call function [arg] =>
    (metricKind? function).map fun kind => .scriptMetric kind field.script arg.script
  | _ => none

/-- What has a metric is a call of a metric's function with one argument. -/
theorem metricNode?_eq_some_iff {field : Expr} {node : AggregationNode} :
    metricNode? field = some node ↔
      ∃ function arg kind, field = .call function [arg] ∧ metricKind? function = some kind ∧
        node = .scriptMetric kind field.script arg.script := by
  constructor
  · intro h
    unfold metricNode? at h
    split at h
    · next function arg =>
        obtain ⟨kind, hkind, rfl⟩ := Option.map_eq_some_iff.mp h
        exact ⟨function, arg, kind, rfl, hkind, rfl⟩
    · cases h
  · rintro ⟨function, arg, kind, rfl, hkind, rfl⟩
    rw [metricNode?, hkind, Option.map_some]

theorem metricNode?_name {field : Expr} {node : AggregationNode}
    (h : metricNode? field = some node) : node.name = field.script := by
  obtain ⟨function, arg, kind, -, -, rfl⟩ := metricNode?_eq_some_iff.mp h
  rfl

/-- The error of a dimension behind the dimensions before it. -/
def dimensionFault? (earlier : List Expr) (dimension : Expr) : Option TranslateError :=
  if dimension.isForeignCall then some (.unsupportedBucket dimension.script)
  else if ∃ other ∈ earlier, other.script = dimension.script then
    some (.duplicateAggregation dimension.script)
  else none

/-- The error of a field, whatever stands before it. -/
def fieldFault? (_earlier : List Expr) (field : Expr) : Option TranslateError :=
  match field with
  | .call function args =>
    if function ∉ metricFunctions then some (.unsupportedMetric field.script)
    else if args.length ≠ 1 then some (.invalidArguments function 1 args.length)
    else none
  | _ => none

theorem metricOf_eq (earlier : List Expr) (field : Expr) :
    metricOf field =
      match fieldFault? earlier field with
      | some e => .error e
      | none => .ok (metricNode? field) := by
  cases field with
  | call function args =>
      cases hk : metricKind? function with
      | none =>
          have h := (metricKind?_eq_none_iff function).mp hk
          simp [metricOf, fieldFault?, hk, h]
      | some kind =>
          have h : function ∈ metricFunctions :=
            Decidable.not_not.mp (mt (metricKind?_eq_none_iff function).mpr (by simp [hk]))
          cases args with
          | nil => simp [metricOf, fieldFault?, hk, h]
          | cons arg rest =>
              cases rest with
              | nil => simp [metricOf, fieldFault?, metricNode?, hk, h]
              | cons other rest => simp [metricOf, fieldFault?, hk, h]
  | _ => simp [metricOf, fieldFault?, metricNode?]

theorem fieldFault?_call_eq_none_iff (earlier : List Expr) (function : String)
    (args : List Expr) :
    fieldFault? earlier (.call function args) = none ↔
      function ∈ metricFunctions ∧ args.length = 1 := by
  unfold fieldFault?
  by_cases hfunction : function ∈ metricFunctions
  · simp [hfunction]
  · simp [hfunction]

/-- An accepted field has a metric exactly when it is a call. -/
theorem metricNode?_eq_none_iff {field : Expr} (h : fieldFault? [] field = none) :
    metricNode? field = none ↔ field.asCall? = none := by
  cases field with
  | call function args =>
      obtain ⟨hfunction, hlength⟩ := (fieldFault?_call_eq_none_iff [] function args).mp h
      obtain ⟨arg, rfl⟩ := List.length_eq_one_iff.mp hlength
      have hkind : metricKind? function ≠ none :=
        fun hnone => (metricKind?_eq_none_iff function).mp hnone hfunction
      simp [metricNode?, Expr.asCall?, hkind]
  | _ => simp [metricNode?, Expr.asCall?]

section FirstFault

/-- The fault of the first entry that has one. -/
def firstFault? (fault : List Expr → Expr → Option TranslateError) (entries : List Expr) :
    Option TranslateError :=
  match entries with
  | [] => none
  | entry :: rest =>
    match fault [] entry with
    | some e => some e
    | none => firstFault? (fun before => fault (entry :: before)) rest

variable (fault : List Expr → Expr → Option TranslateError)

/-- No entry has a fault behind the entries before it. -/
def FaultFree (entries : List Expr) : Prop :=
  ∀ before entry after, entries = before ++ entry :: after → fault before entry = none

/-- The error is the fault of an entry before which no entry has one. -/
def FirstFault (entries : List Expr) (e : TranslateError) : Prop :=
  ∃ before entry after, entries = before ++ entry :: after ∧
    FaultFree fault before ∧ fault before entry = some e

theorem faultFree_nil : FaultFree fault [] := by
  intro before entry after h
  simp at h

theorem faultFree_cons (entry : Expr) (rest : List Expr) :
    FaultFree fault (entry :: rest) ↔
      fault [] entry = none ∧ FaultFree (fun before => fault (entry :: before)) rest := by
  constructor
  · intro h
    refine ⟨h [] entry rest rfl, ?_⟩
    intro before other after hrest
    exact h (entry :: before) other after (by rw [hrest, List.cons_append])
  · rintro ⟨hentry, hrest⟩ before other after h
    cases before with
    | nil =>
        obtain ⟨rfl, rfl⟩ := List.cons.inj h
        exact hentry
    | cons first before =>
        obtain ⟨rfl, htail⟩ := List.cons.inj h
        exact hrest before other after htail

theorem firstFault_cons (entry : Expr) (rest : List Expr) (e : TranslateError) :
    FirstFault fault (entry :: rest) e ↔
      fault [] entry = some e ∨
        (fault [] entry = none ∧
          FirstFault (fun before => fault (entry :: before)) rest e) := by
  constructor
  · rintro ⟨before, other, after, h, hfree, he⟩
    cases before with
    | nil =>
        obtain ⟨rfl, rfl⟩ := List.cons.inj h
        exact Or.inl he
    | cons first before =>
        obtain ⟨rfl, htail⟩ := List.cons.inj h
        obtain ⟨hentry, hfree⟩ := (faultFree_cons fault entry before).mp hfree
        exact Or.inr ⟨hentry, before, other, after, htail, hfree, he⟩
  · rintro (he | ⟨hentry, before, other, after, h, hfree, he⟩)
    · exact ⟨[], entry, rest, rfl, faultFree_nil fault, he⟩
    · exact ⟨entry :: before, other, after, by rw [h, List.cons_append],
        (faultFree_cons fault entry before).mpr ⟨hentry, hfree⟩, he⟩

theorem firstFault?_eq_none_iff (entries : List Expr) :
    firstFault? fault entries = none ↔ FaultFree fault entries := by
  induction entries generalizing fault with
  | nil => simp [firstFault?, faultFree_nil]
  | cons entry rest ih =>
      rw [firstFault?, faultFree_cons, ← ih]
      cases fault [] entry <;> simp

theorem firstFault?_eq_some_iff (entries : List Expr) (e : TranslateError) :
    firstFault? fault entries = some e ↔ FirstFault fault entries e := by
  induction entries generalizing fault with
  | nil => simp [firstFault?, FirstFault]
  | cons entry rest ih =>
      rw [firstFault?, firstFault_cons, ← ih]
      cases fault [] entry <;> simp

end FirstFault

/-- The buckets are the nodes of the dimensions unless a dimension has a fault. -/
theorem bucketsAfter_eq (seen : List String) (earlier dimensions : List Expr)
    (h : ∀ name, name ∈ seen ↔ ∃ other ∈ earlier, other.script = name) :
    bucketsAfter seen dimensions =
      match firstFault? (fun before => dimensionFault? (earlier ++ before)) dimensions with
      | some e => .error e
      | none => .ok (dimensions.map bucketNode) := by
  induction dimensions generalizing seen earlier with
  | nil => rfl
  | cons dimension rest ih =>
      have hseen : ∀ name, name ∈ dimension.script :: seen ↔
          ∃ other ∈ earlier ++ [dimension], other.script = name := by
        intro name
        simp [h, or_comm, eq_comm, or_and_right, exists_or]
      have hrest := ih (dimension.script :: seen) (earlier ++ [dimension]) hseen
      simp only [List.append_assoc, List.singleton_append] at hrest
      rw [bucketsAfter, bucketOf_eq, firstFault?, List.append_nil]
      by_cases hforeign : dimension.isForeignCall = true
      · simp [dimensionFault?, hforeign]
      · rw [if_neg hforeign]
        by_cases hname : dimension.script ∈ seen
        · have hfault : dimensionFault? earlier dimension =
              some (.duplicateAggregation dimension.script) := by
            simp [dimensionFault?, hforeign, (h dimension.script).mp hname]
          simp [hname, hfault]
        · have hfault : dimensionFault? earlier dimension = none := by
            simpa [dimensionFault?, hforeign] using mt (h dimension.script).mpr hname
          simp only [hfault, bucketNode_name, hname, if_false, hrest]
          split <;> rfl

theorem buckets_eq (dimensions : List Expr) :
    buckets dimensions =
      match firstFault? dimensionFault? dimensions with
      | some e => .error e
      | none => .ok (dimensions.map bucketNode) :=
  bucketsAfter_eq [] [] dimensions (by simp)

/-- The first node of each name, in order. -/
def distinctByName (nodes : List AggregationNode) : List AggregationNode :=
  match nodes with
  | [] => []
  | node :: rest => node :: (distinctByName rest).filter fun other => other.name ≠ node.name

theorem nodup_names_distinctByName (nodes : List AggregationNode) :
    ((distinctByName nodes).map AggregationNode.name).Nodup := by
  induction nodes with
  | nil => simp [distinctByName]
  | cons node rest ih =>
      rw [distinctByName, List.map_cons, List.nodup_cons]
      refine ⟨by simp, ?_⟩
      exact ih.sublist (List.filter_sublist.map AggregationNode.name)

/-- The names that a test keeps, among the first nodes of each name. The test stands for the
names before, to which each node adds its own. -/
theorem map_name_filter_distinctByName (kept : String → Bool) (nodes : List AggregationNode) :
    ((distinctByName nodes).filter fun node => kept node.name).map AggregationNode.name =
      ((nodes.map AggregationNode.name).filter kept).eraseDups := by
  induction nodes generalizing kept with
  | nil => rfl
  | cons node rest ih =>
      rw [distinctByName, List.map_cons]
      by_cases h : kept node.name = true
      · rw [List.filter_cons, if_pos h, List.filter_cons, if_pos h, List.map_cons,
          List.eraseDups_cons, List.filter_filter, List.filter_filter]
        congr 1
        -- Behind a node that is kept, the test refuses its name as well.
        rw [← ih fun name => !name == node.name && kept name]
        congr 1
        apply List.filter_congr
        intro other _
        by_cases hname : other.name = node.name <;> simp [hname]
      · rw [List.filter_cons, if_neg h, List.filter_cons, if_neg h, ← ih kept,
          List.filter_filter]
        congr 1
        apply List.filter_congr
        intro other _
        by_cases hname : other.name = node.name <;> simp [hname, h]

/-- Of each name the first node is kept, in order. -/
theorem map_name_distinctByName (nodes : List AggregationNode) :
    (distinctByName nodes).map AggregationNode.name =
      (nodes.map AggregationNode.name).eraseDups := by
  have h := map_name_filter_distinctByName (fun _ => true) nodes
  have hall {α : Type} (items : List α) : (items.filter fun _ => true) = items :=
    List.filter_eq_self.mpr fun _ _ => rfl
  rwa [hall, hall] at h

theorem distinctByName_eq_nil_iff (nodes : List AggregationNode) :
    distinctByName nodes = [] ↔ nodes = [] := by
  cases nodes <;> simp [distinctByName]

theorem mem_of_mem_distinctByName {node : AggregationNode} {nodes : List AggregationNode}
    (h : node ∈ distinctByName nodes) : node ∈ nodes := by
  induction nodes with
  | nil => exact h
  | cons first rest ih =>
      rw [distinctByName] at h
      rcases List.mem_cons.mp h with rfl | hrest
      · exact List.mem_cons_self
      · exact List.mem_cons_of_mem _ (ih (List.mem_filter.mp hrest).1)

theorem filter_distinctByName_cons (seen : List String) (node : AggregationNode)
    (rest : List AggregationNode) :
    (distinctByName (node :: rest)).filter (fun other => other.name ∉ seen) =
      if node.name ∈ seen then (distinctByName rest).filter fun other => other.name ∉ seen
      else node :: (distinctByName rest).filter fun other => other.name ∉ node.name :: seen := by
  by_cases h : node.name ∈ seen
  · rw [if_pos h, distinctByName, List.filter_cons_of_neg (by simpa using h),
      List.filter_filter]
    apply List.filter_congr
    intro other _
    by_cases ho : other.name ∈ seen
    · simp [ho]
    · have hne : other.name ≠ node.name := fun e => ho (e ▸ h)
      simp [ho, hne]
  · rw [if_neg h, distinctByName, List.filter_cons_of_pos (by simpa using h),
      List.filter_filter]
    congr 1
    apply List.filter_congr
    intro other _
    simp [Bool.and_comm]

/-- The metrics are the nodes of the fields, the first of each name, unless a field has a
fault. -/
theorem metricsAfter_eq (seen : List String) (fields : List Expr) :
    metricsAfter seen fields =
      match firstFault? fieldFault? fields with
      | some e => .error e
      | none => .ok ((distinctByName (fields.filterMap metricNode?)).filter
          fun node => node.name ∉ seen) := by
  induction fields generalizing seen with
  | nil => rfl
  | cons field rest ih =>
      have hshift : (fun before => fieldFault? (field :: before)) = fieldFault? := rfl
      rw [metricsAfter, metricOf_eq [], firstFault?, hshift]
      cases hfault : fieldFault? [] field with
      | some e => rfl
      | none =>
          cases hnode : metricNode? field with
          | none => simp only [ih, List.filterMap_cons_none hnode]
          | some node =>
              simp only [List.filterMap_cons_some hnode, filter_distinctByName_cons, ih]
              by_cases hname : node.name ∈ seen
              · simp only [if_pos hname]
              · simp only [if_neg hname]
                split <;> rfl

theorem metrics_eq (fields : List Expr) :
    metrics fields =
      match firstFault? fieldFault? fields with
      | some e => .error e
      | none => .ok (distinctByName (fields.filterMap metricNode?)) := by
  have hall : ∀ nodes : List AggregationNode,
      nodes.filter (fun node => node.name ∉ ([] : List String)) = nodes := by simp
  simp only [metrics, metricsAfter_eq, hall]

theorem buckets_eq_ok_iff (dimensions : List Expr) (nodes : List AggregationNode) :
    buckets dimensions = .ok nodes ↔
      FaultFree dimensionFault? dimensions ∧ nodes = dimensions.map bucketNode := by
  rw [buckets_eq, ← firstFault?_eq_none_iff]
  cases firstFault? dimensionFault? dimensions <;> simp [eq_comm]

theorem metrics_eq_ok_iff (fields : List Expr) (nodes : List AggregationNode) :
    metrics fields = .ok nodes ↔
      FaultFree fieldFault? fields ∧ nodes = distinctByName (fields.filterMap metricNode?) := by
  rw [metrics_eq, ← firstFault?_eq_none_iff]
  cases firstFault? fieldFault? fields <;> simp [eq_comm]

/-- What holds of the node of every dimension holds of all buckets. -/
theorem forall_mem_buckets {P : AggregationNode → Prop}
    (hP : ∀ dimension, P (bucketNode dimension))
    {dimensions : List Expr} {nodes : List AggregationNode} (h : buckets dimensions = .ok nodes) :
    ∀ node ∈ nodes, P node := by
  obtain ⟨_, rfl⟩ := (buckets_eq_ok_iff _ _).mp h
  intro node hnode
  obtain ⟨dimension, _, rfl⟩ := List.mem_map.mp hnode
  exact hP dimension

/-- What holds of the node of every call holds of all metrics. -/
theorem forall_mem_metrics {P : AggregationNode → Prop}
    (hP : ∀ {field node}, metricNode? field = some node → P node)
    {fields : List Expr} {nodes : List AggregationNode} (h : metrics fields = .ok nodes) :
    ∀ node ∈ nodes, P node := by
  obtain ⟨_, rfl⟩ := (metrics_eq_ok_iff _ _).mp h
  intro node hnode
  obtain ⟨field, _, hfield⟩ := List.mem_filterMap.mp (mem_of_mem_distinctByName hnode)
  exact hP hfield

theorem dimensionFault?_eq_none_iff (earlier : List Expr) (dimension : Expr) :
    dimensionFault? earlier dimension = none ↔
      dimension.isForeignCall = false ∧
        ∀ other ∈ earlier, other.script ≠ dimension.script := by
  unfold dimensionFault?
  split
  · simp_all
  · split <;> simp_all

theorem faultFree_dimensions_after (earlier dimensions : List Expr) :
    FaultFree (fun before => dimensionFault? (earlier ++ before)) dimensions ↔
      (∀ dimension ∈ dimensions, dimension.isForeignCall = false) ∧
        (dimensions.map Expr.script).Nodup ∧
        ∀ dimension ∈ dimensions, ∀ other ∈ earlier, other.script ≠ dimension.script := by
  induction dimensions generalizing earlier with
  | nil => simp [faultFree_nil]
  | cons dimension rest ih =>
      have hrest := ih (earlier ++ [dimension])
      simp only [List.append_assoc, List.singleton_append] at hrest
      rw [faultFree_cons, hrest, List.append_nil, dimensionFault?_eq_none_iff]
      constructor
      · rintro ⟨⟨hfirst, hearlier⟩, hforeign, hnodup, hothers⟩
        refine ⟨List.forall_mem_cons.mpr ⟨hfirst, hforeign⟩, List.nodup_cons.mpr ⟨?_, hnodup⟩,
          List.forall_mem_cons.mpr ⟨hearlier, ?_⟩⟩
        · intro hmem
          obtain ⟨other, hother, hscript⟩ := List.mem_map.mp hmem
          exact hothers other hother dimension (by simp) hscript.symm
        · intro other hother before hbefore
          exact hothers other hother before (by simp [hbefore])
      · rintro ⟨hforeign, hnodup, hothers⟩
        obtain ⟨hfirst, hforeign⟩ := List.forall_mem_cons.mp hforeign
        obtain ⟨hnew, hnodup⟩ := List.nodup_cons.mp hnodup
        obtain ⟨hearlier, hothers⟩ := List.forall_mem_cons.mp hothers
        refine ⟨⟨hfirst, hearlier⟩, hforeign, hnodup, ?_⟩
        intro other hother before hbefore hscript
        rcases List.mem_append.mp hbefore with hbefore | hbefore
        · exact hothers other hother before hbefore hscript
        · obtain rfl := List.mem_singleton.mp hbefore
          exact hnew (List.mem_map.mpr ⟨other, hother, hscript.symm⟩)

/-- Dimensions are accepted when none is a foreign call and no two share a script. -/
theorem faultFree_dimensions_iff (dimensions : List Expr) :
    FaultFree dimensionFault? dimensions ↔
      (∀ dimension ∈ dimensions, dimension.isForeignCall = false) ∧
        (dimensions.map Expr.script).Nodup := by
  simpa using faultFree_dimensions_after [] dimensions

/-- Fields are accepted one by one. -/
theorem faultFree_fields_iff (fields : List Expr) :
    FaultFree fieldFault? fields ↔ ∀ field ∈ fields, fieldFault? [] field = none := by
  constructor
  · intro h field hfield
    obtain ⟨before, after, hsplit⟩ := List.append_of_mem hfield
    exact h before field after hsplit
  · intro h before field after hsplit
    exact h field (by simp [hsplit])

end AggQuery
