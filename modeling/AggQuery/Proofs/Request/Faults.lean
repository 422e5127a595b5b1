import AggQuery.Proofs.Aggregation.Descriptors
import AggQuery.Request.Translate

/-!
# Why a query has no request

A query has no request exactly when one of its dimensions or fields has a fault, and the
error is that of the first one, dimensions before fields. Repeated calls and fields that
are no call change nothing, and writing a request down never fails.
-/

namespace AggQuery

theorem firstFault?_fields (fields : List Expr) :
    firstFault? fieldFault? fields = fields.findSome? (fieldFault? []) := by
  induction fields with
  | nil => rfl
  | cons field rest ih =>
      have hshift : (fun before => fieldFault? (field :: before)) = fieldFault? := rfl
      rw [firstFault?, hshift, ih, List.findSome?_cons]
      cases fieldFault? [] field <;> rfl

/-- A field that stands before already, or is no call, has no say in the first fault. -/
theorem firstFault?_skip (before after : List Expr) {field : Expr}
    (h : field ∈ before ∨ field.asCall? = none) :
    firstFault? fieldFault? (before ++ field :: after) =
      firstFault? fieldFault? (before ++ after) := by
  simp only [firstFault?_fields, List.findSome?_append, List.findSome?_cons]
  cases hfault : fieldFault? [] field with
  | none => rfl
  | some e =>
      have hbefore : (before.findSome? (fieldFault? [])).isSome = true := by
        rcases h with hmem | hcall
        · exact List.findSome?_isSome_iff.mpr ⟨field, hmem, by simp [hfault]⟩
        · cases field <;> simp_all [fieldFault?, Expr.asCall?]
      obtain ⟨first, hfirst⟩ := Option.isSome_iff_exists.mp hbefore
      simp [hfirst]

theorem not_nodup_scripts_iff (dimensions : List Expr) :
    ¬(dimensions.map Expr.script).Nodup ↔
      ∃ i j, ∃ (_ : i < j) (_ : j < dimensions.length),
        dimensions[i].script = dimensions[j].script := by
  rw [List.Nodup, List.pairwise_map, List.pairwise_iff_getElem]
  constructor
  · intro h
    obtain ⟨i, h⟩ := Classical.not_forall.mp h
    obtain ⟨j, h⟩ := Classical.not_forall.mp h
    simp only [Classical.not_forall, Decidable.not_not] at h
    obtain ⟨_, hj, hij, hscript⟩ := h
    exact ⟨i, j, hij, hj, hscript⟩
  · rintro ⟨i, j, hij, hj, hscript⟩ h
    exact h i j (by omega) hj hij hscript

theorem not_faultFree_dimensions_iff (dimensions : List Expr) :
    ¬FaultFree dimensionFault? dimensions ↔
      (∃ name args, .call name args ∈ dimensions ∧ name ≠ "date_histogram") ∨
        ∃ i j, ∃ (_ : i < j) (_ : j < dimensions.length),
          dimensions[i].script = dimensions[j].script := by
  rw [faultFree_dimensions_iff, Classical.not_and_iff_not_or_not, not_nodup_scripts_iff]
  refine or_congr_left ⟨?_, ?_⟩
  · intro h
    simp only [Classical.not_forall, Bool.not_eq_false] at h
    obtain ⟨dimension, hmem, hforeign⟩ := h
    obtain ⟨name, args, rfl, hname⟩ := dimension.isForeignCall_iff.mp hforeign
    exact ⟨name, args, hmem, hname⟩
  · rintro ⟨name, args, hmem, hname⟩ h
    have hforeign := (Expr.isForeignCall_iff _).mpr ⟨name, args, rfl, hname⟩
    exact absurd (h _ hmem) (by simp [hforeign])

theorem not_faultFree_fields_iff (fields : List Expr) :
    ¬FaultFree fieldFault? fields ↔
      ∃ function args, .call function args ∈ fields ∧
        (function ∉ metricFunctions ∨ args.length ≠ 1) := by
  rw [faultFree_fields_iff]
  constructor
  · intro h
    simp only [Classical.not_forall] at h
    obtain ⟨field, hmem, hfault⟩ := h
    cases field with
    | call function args =>
        rw [fieldFault?_call_eq_none_iff, Classical.not_and_iff_not_or_not] at hfault
        exact ⟨function, args, hmem, hfault⟩
    | _ => exact absurd rfl hfault
  · rintro ⟨function, args, hmem, hfault⟩ h
    obtain ⟨hfunction, hlength⟩ := (fieldFault?_call_eq_none_iff [] _ _).mp (h _ hmem)
    rcases hfault with hfault | hfault
    · exact hfault hfunction
    · exact hfault hlength

namespace Query

/-- A query fails with the first fault of its dimensions, or of its fields where the
dimensions have none. -/
theorem translate_eq_error_iff (query : Query) (e : TranslateError) :
    query.translate = .error e ↔
      FirstFault dimensionFault? query.dimensions e ∨
        (FaultFree dimensionFault? query.dimensions ∧
          FirstFault fieldFault? query.fields e) := by
  rw [translate, buckets_eq, metrics_eq, ← firstFault?_eq_some_iff, ← firstFault?_eq_some_iff,
    ← firstFault?_eq_none_iff]
  cases firstFault? dimensionFault? query.dimensions with
  | some other => simp
  | none => cases firstFault? fieldFault? query.fields <;> simp

example : ({ dimensions := [.field "a", .call "avg" [], .field "a"],
             fields := [.call "median" []] } : Query).translate =
    .error (.unsupportedBucket "avg()") := by rfl

theorem exists_translate_eq_error_iff (query : Query) :
    (∃ e, query.translate = .error e) ↔
      ¬FaultFree dimensionFault? query.dimensions ∨ ¬FaultFree fieldFault? query.fields := by
  rw [translate, buckets_eq, metrics_eq, ← firstFault?_eq_none_iff, ← firstFault?_eq_none_iff]
  cases firstFault? dimensionFault? query.dimensions with
  | some e => simp
  | none => cases firstFault? fieldFault? query.fields <;> simp

theorem translate_ne_serialization (query : Query) (message : String) :
    query.translate ≠ .error (.serialization message) := by
  intro h
  rcases (query.translate_eq_error_iff _).mp h with hfirst | ⟨_, hfirst⟩
  · obtain ⟨before, dimension, _, _, _, hfault⟩ := hfirst
    unfold dimensionFault? at hfault
    split at hfault
    · cases hfault
    · split at hfault <;> cases hfault
  · obtain ⟨before, field, _, _, _, hfault⟩ := hfirst
    unfold fieldFault? at hfault
    split at hfault
    · split at hfault
      · cases hfault
      · split at hfault <;> cases hfault
    · cases hfault

/-- A field that stands before already, or is no call, neither causes nor hides an error. -/
theorem translate_skip_error_iff {query : Query} {before after : List Expr} {field : Expr}
    (hfields : query.fields = before ++ field :: after)
    (hskip : field ∈ before ∨ field.asCall? = none) (e : TranslateError) :
    query.translate = .error e ↔
      { query with fields := before ++ after }.translate = .error e := by
  simp only [translate_eq_error_iff, ← firstFault?_eq_some_iff, hfields,
    firstFault?_skip before after hskip]

theorem requestTextOrEmpty_of_ok {query : Query} {document : Document}
    (h : query.translate = .ok document) : query.requestTextOrEmpty = document.compact := by
  simp [requestTextOrEmpty, requestText, h, Except.map]

theorem requestTextOrEmpty_of_error {query : Query} {e : TranslateError}
    (h : query.translate = .error e) : query.requestTextOrEmpty = "" := by
  simp [requestTextOrEmpty, requestText, h, Except.map]

theorem compact_ne_empty {query : Query} {document : Document}
    (h : query.translate = .ok document) : document.compact ≠ "" := by
  obtain ⟨_, _, _, _, rfl⟩ := (query.translate_eq_ok_iff document).mp h
  exact Document.compact_object_ne_empty _

/-- Translating fails exactly on a foreign call or a repeated script among the dimensions
and on an unknown function or a wrong number of arguments among the fields. The error is
that of the first such place, dimensions first; repeated calls and fields that are no calls
have no part in it, writing the request down adds no error, and the text that stands for
both outcomes is empty on failure only. -/
theorem translate_faults (query : Query) :
    ((∃ e, query.translate = .error e) ↔
      (∃ name args, .call name args ∈ query.dimensions ∧ name ≠ "date_histogram") ∨
      (∃ i j, ∃ (_ : i < j) (_ : j < query.dimensions.length),
        query.dimensions[i].script = query.dimensions[j].script) ∨
      ∃ function args, .call function args ∈ query.fields ∧
        (function ∉ metricFunctions ∨ args.length ≠ 1)) ∧
    (∀ e, query.translate = .error e ↔
      FirstFault dimensionFault? query.dimensions e ∨
        (FaultFree dimensionFault? query.dimensions ∧
          FirstFault fieldFault? query.fields e)) ∧
    (∀ before field after, query.fields = before ++ field :: after →
      field ∈ before ∨ field.asCall? = none → ∀ e, query.translate = .error e ↔
        { query with fields := before ++ after }.translate = .error e) ∧
    (∀ message, query.requestText ≠ .error (.serialization message) ∧
      query.requestTextPretty ≠ .error (.serialization message)) ∧
    (query.requestTextOrEmpty = "" ↔ ∃ e, query.translate = .error e) ∧
    ∀ document, query.translate = .ok document →
      query.requestTextOrEmpty = document.compact := by
  refine ⟨?_, query.translate_eq_error_iff, ?_, ?_, ?_, ?_⟩
  · rw [exists_translate_eq_error_iff, not_faultFree_dimensions_iff, not_faultFree_fields_iff,
      or_assoc]
  · intro before field after hfields hskip e
    exact translate_skip_error_iff hfields hskip e
  · intro message
    have hne := query.translate_ne_serialization message
    unfold requestText requestTextPretty
    cases h : query.translate with
    | ok document => simp [Except.map]
    | error e =>
        have he : e ≠ .serialization message := fun he => hne (h.trans (by rw [he]))
        simpa [Except.map] using he
  · constructor
    · intro hempty
      cases h : query.translate with
      | ok document => exact absurd (requestTextOrEmpty_of_ok h ▸ hempty) (compact_ne_empty h)
      | error e => exact ⟨e, rfl⟩
    · rintro ⟨e, h⟩
      exact requestTextOrEmpty_of_error h
  · intro document h
    exact requestTextOrEmpty_of_ok h

end Query

end AggQuery
