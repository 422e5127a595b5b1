import AggQuery.Proofs.Aggregation.Descriptors
import AggQuery.Proofs.Expr.Grouping

/-!
# Repeated metrics

A metric is left out when its name stands before already. Nothing is lost by that: the name
of a metric tells its function and the script of its argument (`call_script_eq_iff`), so two
calls of one name have one and the same node (`metricNode?_eq_of_script_eq`).

## Implementation notes

Scripts do not tell trees apart in general. The names of metrics can be taken apart all the
same, since the name of a function is a plain identifier and ends at the first parenthesis,
whatever the script of the argument holds.
-/

namespace AggQuery

theorem isPlainIdentifier_of_mem_metricFunctions {function : String}
    (h : function ∈ metricFunctions) : isPlainIdentifier function.toList = true := by
  simp only [metricFunctions, List.mem_cons, List.not_mem_nil, or_false] at h
  rcases h with rfl | rfl | rfl | rfl | rfl | rfl | rfl | rfl | rfl <;> decide

/-- Calls of plain names with one argument share a script exactly when they share the name
and the script of the argument. -/
theorem call_script_eq_iff {function other : String} (arg otherArg : Expr)
    (hfunction : isPlainIdentifier function.toList = true)
    (hother : isPlainIdentifier other.toList = true) :
    (Expr.call function [arg]).script = (Expr.call other [otherArg]).script ↔
      function = other ∧ arg.script = otherArg.script := by
  constructor
  · intro h
    have hchars : function.toList ++ '(' :: (arg.chars ++ [')']) =
        other.toList ++ '(' :: (otherArg.chars ++ [')']) := by
      simpa [Expr.chars, Expr.argChars, Expr.moreArgChars] using congrArg String.toList h
    obtain ⟨hname, hrest⟩ := plainIdentifier_append_inj hfunction hother
      (stopsIdentifier_open _) (stopsIdentifier_open _) hchars
    refine ⟨String.toList_inj.mp hname, ?_⟩
    rw [Expr.script, Expr.script, List.append_cancel_right (List.cons.inj hrest).2]
  · rintro ⟨rfl, harg⟩
    have hchars : arg.chars = otherArg.chars := by
      rw [← Expr.toList_script, harg, Expr.toList_script]
    simp only [Expr.script, Expr.chars, Expr.argChars, Expr.moreArgChars, hchars]

/-- Two fields of one script have one and the same metric. -/
theorem metricNode?_eq_of_script_eq {field other : Expr} {node otherNode : AggregationNode}
    (hfield : metricNode? field = some node) (hother : metricNode? other = some otherNode)
    (h : field.script = other.script) : node = otherNode := by
  obtain ⟨function, arg, kind, rfl, hkind, rfl⟩ := metricNode?_eq_some_iff.mp hfield
  obtain ⟨otherFunction, otherArg, otherKind, rfl, hotherKind, rfl⟩ :=
    metricNode?_eq_some_iff.mp hother
  have hplain := isPlainIdentifier_of_mem_metricFunctions
    (mem_metricFunctions_of_metricKind? hkind)
  have hotherPlain := isPlainIdentifier_of_mem_metricFunctions
    (mem_metricFunctions_of_metricKind? hotherKind)
  obtain ⟨rfl, harg⟩ := (call_script_eq_iff arg otherArg hplain hotherPlain).mp h
  obtain rfl : kind = otherKind := Option.some.inj (hkind.symm.trans hotherKind)
  rw [h, harg]

/-- The names of the metrics of accepted fields are the scripts of the calls among them. -/
theorem map_name_filterMap_metricNode? {fields : List Expr}
    (h : ∀ field ∈ fields, fieldFault? [] field = none) :
    (fields.filterMap metricNode?).map AggregationNode.name =
      (fields.filter fun field => field.asCall?.isSome).map Expr.script := by
  induction fields with
  | nil => rfl
  | cons field rest ih =>
      obtain ⟨hfield, hrest⟩ := List.forall_mem_cons.mp h
      cases hnode : metricNode? field with
      | none =>
          have hcall := (metricNode?_eq_none_iff hfield).mp hnode
          have hskip : ¬field.asCall?.isSome = true := by simp [hcall]
          rw [List.filterMap_cons_none hnode, List.filter_cons, if_neg hskip, ih hrest]
      | some node =>
          have hcall : field.asCall?.isSome = true := by
            rw [Option.isSome_iff_ne_none, Ne, ← metricNode?_eq_none_iff hfield, hnode]
            exact Option.some_ne_none node
          rw [List.filterMap_cons_some hnode, List.filter_cons, if_pos hcall, List.map_cons,
            List.map_cons, ih hrest, metricNode?_name hnode]

/-- Among the metrics of accepted fields, the node of a field is the one of its name. -/
theorem mem_metrics_and_name_iff {fields : List Expr} {field : Expr} {own : AggregationNode}
    (hfield : field ∈ fields) (hown : metricNode? field = some own) (node : AggregationNode) :
    node ∈ distinctByName (fields.filterMap metricNode?) ∧ node.name = field.script ↔
      node = own := by
  -- A node of this name may come from another field; it is the same node then.
  have hunique : ∀ other ∈ distinctByName (fields.filterMap metricNode?),
      other.name = field.script → other = own := by
    intro other hother hname
    obtain ⟨source, -, hsource⟩ := List.mem_filterMap.mp (mem_of_mem_distinctByName hother)
    exact metricNode?_eq_of_script_eq hsource hown ((metricNode?_name hsource).symm.trans hname)
  constructor
  · rintro ⟨hmem, hname⟩
    exact hunique node hmem hname
  · rintro rfl
    have hname : node.name ∈
        (distinctByName (fields.filterMap metricNode?)).map AggregationNode.name := by
      rw [map_name_distinctByName, List.mem_eraseDups]
      exact List.mem_map_of_mem (List.mem_filterMap.mpr ⟨field, hfield, hown⟩)
    obtain ⟨other, hother, hsame⟩ := List.mem_map.mp hname
    have hscript := metricNode?_name hown
    obtain rfl := hunique other hother (hsame.trans hscript)
    exact ⟨hother, hscript⟩

/-- Leaving out repeated metrics loses nothing. The metrics of accepted fields have the
scripts of the calls as their names, each one once and in the order in which they first
occur, and the metric with the script of a call is that of the call, whether its place or an
earlier one has given it. So calls that share a script share function and argument. -/
theorem metrics_lossless {fields : List Expr} {nodes : List AggregationNode}
    (h : metrics fields = .ok nodes) :
    nodes.map AggregationNode.name =
        ((fields.filter fun field => field.asCall?.isSome).map Expr.script).eraseDups ∧
      (nodes.map AggregationNode.name).Nodup ∧
      (∀ function args, .call function args ∈ fields →
        ∃ kind arg, metricKind? function = some kind ∧ args = [arg] ∧
          ∀ node, node ∈ nodes ∧ node.name = (Expr.call function args).script ↔
            node =
              { name := (Expr.call function args).script
                kind
                params := [("script", .string arg.script)] }) ∧
      ∀ function other arg otherArg, .call function [arg] ∈ fields →
        .call other [otherArg] ∈ fields →
        ((Expr.call function [arg]).script = (Expr.call other [otherArg]).script ↔
          function = other ∧ arg.script = otherArg.script) := by
  obtain ⟨hfree, rfl⟩ := (metrics_eq_ok_iff _ _).mp h
  have haccepted := (faultFree_fields_iff fields).mp hfree
  have hfunctions : ∀ function args, .call function args ∈ fields →
      function ∈ metricFunctions ∧ args.length = 1 := by
    intro function args hmem
    exact (fieldFault?_call_eq_none_iff [] function args).mp (haccepted _ hmem)
  refine ⟨?_, nodup_names_distinctByName _, ?_, ?_⟩
  · rw [map_name_distinctByName, map_name_filterMap_metricNode? haccepted]
  · intro function args hmem
    obtain ⟨hfunction, hlength⟩ := hfunctions function args hmem
    obtain ⟨arg, rfl⟩ := List.length_eq_one_iff.mp hlength
    obtain ⟨kind, hkind⟩ : ∃ kind, metricKind? function = some kind := by
      apply Option.ne_none_iff_exists'.mp
      rw [Ne, metricKind?_eq_none_iff]
      exact not_not_intro hfunction
    refine ⟨kind, arg, hkind, rfl, ?_⟩
    intro node
    exact mem_metrics_and_name_iff hmem
      (metricNode?_eq_some_iff.mpr ⟨function, arg, kind, rfl, hkind, rfl⟩) node
  · intro function other arg otherArg hmem hother
    exact call_script_eq_iff arg otherArg
      (isPlainIdentifier_of_mem_metricFunctions (hfunctions function _ hmem).1)
      (isPlainIdentifier_of_mem_metricFunctions (hfunctions other _ hother).1)

/-- Calls among which two of different trees share a script, and one is repeated. -/
def regroupedCalls : List Expr :=
  [.call "sum" [.literal (.string "a), max(b")], .field "region", .call "max" [.productOfSum],
    .call "count" [.wildcard], .call "max" [.sumWithProduct],
    .call "sum" [.literal (.string "a), max(b")]]

/-- The metrics of `regroupedCalls`. -/
def regroupedMetrics : List AggregationNode :=
  [{ name := "sum('a), max(b')", kind := .sum, params := [("script", .string "'a), max(b'")] },
    { name := "max(a + b * c)", kind := .max, params := [("script", .string "a + b * c")] },
    { name := "count(*)", kind := .valueCount, params := [("script", .string "*")] }]

/-- A call that is left out is described by the metric of the call before it. -/
theorem regroupedCalls_lossless :
    metrics regroupedCalls = .ok regroupedMetrics ∧
      .call "max" [.sumWithProduct] ∈ regroupedCalls ∧
      regroupedMetrics.map AggregationNode.name =
        ((regroupedCalls.filter fun field => field.asCall?.isSome).map Expr.script).eraseDups ∧
      ∀ node,
        node ∈ regroupedMetrics ∧ node.name = (Expr.call "max" [.sumWithProduct]).script ↔
          node =
            { name := (Expr.call "max" [.sumWithProduct]).script
              kind := .max
              params := [("script", .string Expr.sumWithProduct.script)] } := by
  have hmetrics : metrics regroupedCalls = .ok regroupedMetrics := by rfl
  have hmem : .call "max" [.sumWithProduct] ∈ regroupedCalls := by decide +kernel
  obtain ⟨hnames, -, hcalls, -⟩ := metrics_lossless hmetrics
  obtain ⟨kind, arg, hkind, harg, hnode⟩ := hcalls "max" [.sumWithProduct] hmem
  obtain rfl : kind = .max := Option.some.inj (hkind.symm.trans rfl)
  obtain rfl := List.singleton_inj.mp harg
  exact ⟨hmetrics, hmem, hnames, hnode⟩

end AggQuery
