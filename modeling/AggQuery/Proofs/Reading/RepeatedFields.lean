import AggQuery.Proofs.Reading.RespectedQueries
import AggQuery.Proofs.Yaml.Outlines
import AggQuery.Reading.OfInput

/-!
# Fields given twice

A JSON text in which an object gives a field twice is refused, wherever the object stands and
whatever stands around it. A YAML text is refused if the repetition is left when equal keys are
merged, so two names of one field are refused in either format, and one name given twice only
in JSON (`Query.ofInput_repeats`).

## Implementation notes

What is read has an outline that repeats no field, and a text has no other outline.
-/

namespace AggQuery

/-- An object of two scalars under these keys. -/
def pairOutline (first second : String) : Outline :=
  .object [(some first, .scalar), (some second, .scalar)]

/-- A query that selects the result of a call whose payload has two keys. -/
def selectOutline (first second : String) : Outline :=
  .object [(some "select", .array [.object [(some "call", pairOutline first second)]])]

theorem pairOutline_repeats {role : ObjectRole} {first second : String} (field : FieldSchema)
    (hfield : field ∈ role.schema) (hfirst : first ∈ field.names) (hsecond : second ∈ field.names) :
    (pairOutline first second).Repeats (.object role) :=
  .twice hfield (FieldSchema.names_some.mpr hfirst) (FieldSchema.names_some.mpr hsecond)
    (.refl _)

namespace Query

variable {text : String} {query : Query}

/-- A JSON text that is read as a query repeats no field. -/
theorem ofInput_json_eq_ok (h : ofInput .json text = .ok query) :
    ∃ outline : Outline, outline.OfJson text ∧ ¬outline.Repeats (.object .query) := by
  cases hread : ofText text with
  | ok query => exact ofText_eq_ok hread
  | error e =>
      rw [ofInput, hread] at h
      cases h

/-- A YAML text that is read as a query repeats no field once equal keys are merged. -/
theorem ofInput_yaml_eq_ok (h : ofInput .yaml text = .ok query) :
    ∃ outline : Outline, outline.OfYaml text ∧ ¬outline.merged.Repeats (.object .query) := by
  cases hparse : Yaml.parse text with
  | none =>
      rw [ofInput, ofYaml, hparse] at h
      cases h
  | some document =>
      obtain ⟨outline, hyaml, hmerged⟩ := Yaml.exists_outline hparse
      refine ⟨outline, hyaml, fun hrepeats => ?_⟩
      rw [← hmerged] at hrepeats
      have hrefused : (ofDocument document).toOption = none := read_eq_none_of_repeats hrepeats
      rw [ofInput, ofYaml, hparse] at h
      cases hread : ofDocument document with
      | ok query => cases (congrArg Except.toOption hread).symm.trans hrefused
      | error e =>
          dsimp only at h
          rw [hread] at h
          cases h

/-- A JSON text in which a field is given twice is refused, and so is a YAML text in which it is
still given twice when equal keys are merged. -/
theorem ofInput_repeats (text : String) (outline : Outline) :
    (outline.OfJson text → outline.Repeats (.object .query) →
      ∃ e, ofInput .json text = .error e) ∧
    (outline.OfYaml text → outline.merged.Repeats (.object .query) →
      ∃ e, ofInput .yaml text = .error e) := by
  constructor
  · intro hjson hrepeats
    cases hread : ofInput .json text with
    | error e => exact ⟨e, rfl⟩
    | ok query =>
        obtain ⟨other, hother, hnone⟩ := ofInput_json_eq_ok hread
        obtain rfl := hjson.unique hother
        exact absurd hrepeats hnone
  · intro hyaml hrepeats
    cases hread : ofInput .yaml text with
    | error e => exact ⟨e, rfl⟩
    | ok query =>
        obtain ⟨other, hother, hnone⟩ := ofInput_yaml_eq_ok hread
        obtain rfl := hyaml.unique hother
        exact absurd hrepeats hnone

/-- A repetition within a selected call is refused as JSON, and two names of the filter are
refused as YAML. -/
theorem ofInput_repeats_refused :
    (selectOutline "name" "name").OfJson
        "\x7b\"select\":[\x7b\"call\":\x7b\"name\":\"sum\",\"name\":\"avg\"\x7d\x7d]\x7d" ∧
      (selectOutline "name" "name").Repeats (.object .query) ∧
      (∃ e, ofInput .json
        "\x7b\"select\":[\x7b\"call\":\x7b\"name\":\"sum\",\"name\":\"avg\"\x7d\x7d]\x7d" =
          .error e) ∧
      (pairOutline "filter" "condition").OfYaml "filter: wildcard\ncondition: null\n" ∧
      (pairOutline "filter" "condition").merged.Repeats (.object .query) ∧
      ∃ e, ofInput .yaml "filter: wildcard\ncondition: null\n" = .error e := by
  have hselect : (selectOutline "name" "name").Repeats (.object .query) := by
    have hpair : (pairOutline "name" "name").Repeats (.object .call) :=
      pairOutline_repeats (CallKey.schema .name) (List.Mem.head _) (by decide) (by decide)
    have hcall : Outline.Repeats .expr (.object [(some "call", pairOutline "name" "name")]) :=
      .payload (List.Mem.head _) (List.Mem.head _) hpair
    have hlist : Outline.Repeats (QueryField.schema .fields).role
        (.array [.object [(some "call", pairOutline "name" "name")]]) :=
      .item (List.Mem.head _) hcall
    exact .field (by simp [ObjectRole.schema]) (FieldSchema.names_some.mpr (by decide))
      (List.Mem.head _) hlist
  have hpair : (pairOutline "filter" "condition").merged.Repeats (.object .query) :=
    pairOutline_repeats (QueryField.schema .filterCondition) (by simp [ObjectRole.schema])
      (by decide) (by decide)
  have hjson : (selectOutline "name" "name").OfJson
      "\x7b\"select\":[\x7b\"call\":\x7b\"name\":\"sum\",\"name\":\"avg\"\x7d\x7d]\x7d" := by
    decide +kernel
  have hyaml : (pairOutline "filter" "condition").OfYaml "filter: wildcard\ncondition: null\n" := by
    decide +kernel
  exact ⟨hjson, hselect, (ofInput_repeats _ _).1 hjson hselect, hyaml, hpair,
    (ofInput_repeats _ _).2 hyaml hpair⟩

/-- One text repeats a field in either format, and is refused only as JSON: as YAML the second
limit takes the place of the first. -/
theorem repeatedLimit_overridden :
    (pairOutline "limit" "limit").Repeats (.object .query) ∧
      (pairOutline "limit" "limit").OfJson "\x7b\"limit\":1,\"limit\":2\x7d" ∧
      ofInput .json "\x7b\"limit\":1,\"limit\":2\x7d" =
        .error (.reading (.shape (.duplicateField "limit"))) ∧
      (pairOutline "limit" "limit").OfYaml "\x7b\"limit\":1,\"limit\":2\x7d" ∧
      ofInput .yaml "\x7b\"limit\":1,\"limit\":2\x7d" = .ok { limit := 2 } := by
  refine ⟨?_, by decide +kernel⟩
  exact pairOutline_repeats (QueryField.schema .limit) (by simp [ObjectRole.schema]) (by decide)
    (by decide)

end Query

end AggQuery
