import AggQuery.Proofs.Reading.Texts
import AggQuery.Proofs.Yaml.DocumentText

/-!
# One text in two formats

The text that is written for a query is read as that query in either format: as JSON if its
floating-point constants are read back from their texts, and as YAML exactly if every text of the
query keeps its characters (`Query.ofInput_compact_formats`). YAML reads every finite constant
back. A text may lose characters because YAML excludes them, folds a next-line character, drops
the blanks next to a line break, or takes `---` or `...` at the start of a line for a marker.
-/

namespace AggQuery

open Document Lexeme Yaml Yaml.Tokenizer

section Keys

theorem Literal.wordKeys_toDocument (value : Literal) : WordKeys value.toDocument := by
  cases value with
  | string s | duration s => exact .cons (by decide) (.string s) .nil
  | integer n => exact .cons (by decide) (.number _) .nil
  | float x =>
      refine .cons (by decide) ?_ .nil
      split
      · exact .number _
      · exact .null
  | boolean b => exact .cons (by decide) (.boolean b) .nil
  | null => exact .string _

namespace Expr

mutual

theorem wordKeys_toDocument : ∀ e : Expr, WordKeys e.toDocument
  | .field name => .cons (by decide) (.string name) .nil
  | .literal value => .cons (by decide) value.wordKeys_toDocument .nil
  | .call name args =>
    .cons (by decide) (.cons (by decide) (.string name)
      (.cons (by decide) (.array (wordKeys_toDocuments args)) .nil)) .nil
  | .binary op lhs rhs =>
    .cons (by decide) (.cons (by decide) (.string op.name)
      (.cons (by decide) (wordKeys_toDocument lhs)
        (.cons (by decide) (wordKeys_toDocument rhs) .nil))) .nil
  | .unary op operand =>
    .cons (by decide) (.cons (by decide) (.string op.name)
      (.cons (by decide) (wordKeys_toDocument operand) .nil)) .nil
  | .paren inner => .cons (by decide) (wordKeys_toDocument inner) .nil
  | .wildcard => .string _

theorem wordKeys_toDocuments : ∀ es : List Expr, ∀ item ∈ toDocuments es, WordKeys item
  | [] => by simp [toDocuments]
  | e :: es => by
      rw [toDocuments]
      exact List.forall_mem_cons.mpr ⟨wordKeys_toDocument e, wordKeys_toDocuments es⟩

end

end Expr

theorem SortField.wordKeys_toDocument (s : SortField) : WordKeys s.toDocument :=
  .cons (by decide) (.string s.name) (.cons (by decide) (.boolean s.ascending) .nil)

theorem Query.wordKeys_toDocument (q : Query) : WordKeys q.toDocument := by
  have hcondition : WordKeys ((q.filterCondition.map Expr.toDocument).getD .null) := by
    cases q.filterCondition with
    | none => exact .null
    | some e => exact e.wordKeys_toDocument
  exact .cons (by decide) (.number _) (.cons (by decide) (.number _)
    (.cons (by decide) (.array_map q.sortFields SortField.wordKeys_toDocument)
      (.cons (by decide) hcondition
        (.cons (by decide) (.array_map q.dimensions Expr.wordKeys_toDocument)
          (.cons (by decide) (.array_map q.fields Expr.wordKeys_toDocument) .nil)))))

end Keys

namespace Query

variable {q : Query}

/-- As YAML the text of a query is read as the query with each of its texts reread. -/
theorem ofInput_yaml_compact (hfinite : q.Finite)
    (hdepth : q.toDocument.depth ≤ Yaml.nestingLimit) :
    ofInput .yaml q.toDocument.compact =
      match q.mapTexts? reread with
      | none => .error .malformedYaml
      | some after => .ok after := by
  have hfixed : ∀ s ∈ fixedWords, reread s = some s := by
    have hkept : ∀ s ∈ fixedWords, keepsText s = true := by decide +kernel
    exact fun s hs => (reread_eq_self_iff s).mpr (hkept s hs)
  have hparse : Yaml.parse q.toDocument.compact = q.toDocument.mapStrings? reread :=
    Yaml.parse_compact q.wordKeys_toDocument (legible_toDocument (fun _ h => h) hfinite) hdepth
  rw [ofInput, ofYaml, hparse, mapStrings?_toDocument hfixed]
  cases hafter : q.mapTexts? reread with
  | none => rfl
  | some after =>
      change (ofDocument after.toDocument).mapError _ = _
      rw [ofDocument_toDocument (Floats.of_mapTexts? hfinite hafter)]
      rfl

/-- The text of a query is read as that query in either format: as JSON if its floating-point
constants are read back from their texts, as YAML just in case its texts keep their
characters. -/
theorem ofInput_compact_formats (hfinite : q.Finite)
    (hdepth : q.toDocument.depth ≤ AggQuery.nestingLimit) :
    ((q.Floats fun x => NumberReads (.float x)) →
        ofInput .json q.toDocument.compact = .ok q) ∧
      (ofInput .yaml q.toDocument.compact = .ok q ↔ ∀ s ∈ q.texts, keepsText s = true) := by
  refine ⟨fun hreads => ofInput_toDocument_compact hfinite hreads hdepth, ?_⟩
  have htexts : (∀ s ∈ q.texts, keepsText s = true) ↔ q.mapTexts? reread = some q := by
    rw [mapTexts?_eq_self_iff]
    exact forall₂_congr fun s _ => (reread_eq_self_iff s).symm
  rw [htexts, ofInput_yaml_compact hfinite (Nat.le_succ_of_le hdepth)]
  cases q.mapTexts? reread <;> simp

end Query

/-- A query whose texts hold controls, quotes, line breaks that are kept and characters from
all over. -/
def unicodeQuery : Query where
  sortFields := [⟨"naïve \"price\"", false⟩]
  filterCondition := some (.binary .eq (.field "a\u2028b") (.literal (.string "\t\x00\u2029---")))
  dimensions := [.call "日付" [.field "at", .literal (.duration "1d")]]
  fields := [.call "𝛴" [.literal (.float (.ofDecimal true 15 (-1)))]]

theorem unicodeQuery_floats {p : Binary64 → Prop} (h : p (.ofDecimal true 15 (-1))) :
    unicodeQuery.Floats p := by
  constructor
  · intro e he
    obtain rfl := Option.some.inj he
    exact .binary _ (.field _) (.literal trivial)
  · have hargs : ∀ arg ∈ [Expr.field "at", .literal (.duration "1d")], arg.Floats p :=
      List.forall_mem_cons.mpr ⟨.field _, by simpa using .literal trivial⟩
    simpa [unicodeQuery] using .call _ hargs
  · have hargs : ∀ arg ∈ [Expr.literal (.float (.ofDecimal true 15 (-1)))], arg.Floats p := by
      simpa using .literal h
    simpa [unicodeQuery] using .call _ hargs

theorem unicodeQuery_formats :
    unicodeQuery.Finite ∧ unicodeQuery.toDocument.depth ≤ AggQuery.nestingLimit ∧
      (unicodeQuery.Floats fun x => NumberReads (.float x)) ∧
      Query.ofInput .json unicodeQuery.toDocument.compact = .ok unicodeQuery ∧
      Query.ofInput .yaml unicodeQuery.toDocument.compact = .ok unicodeQuery := by
  have hisFinite : (Binary64.ofDecimal true 15 (-1)).isFinite = true := by decide +kernel
  have hfinite : unicodeQuery.Finite := unicodeQuery_floats hisFinite
  have hdepth : unicodeQuery.toDocument.depth ≤ AggQuery.nestingLimit := by decide
  have hreads : unicodeQuery.Floats fun x => NumberReads (.float x) :=
    unicodeQuery_floats ((numberReads_float_iff hisFinite).mpr (by decide +kernel))
  obtain ⟨hjson, hyaml⟩ := Query.ofInput_compact_formats hfinite hdepth
  exact ⟨hfinite, hdepth, hreads, hjson hreads, hyaml.mpr (by decide +kernel)⟩

/-- A query for one field. -/
def fieldQuery (name : String) : Query := { fields := [.field name] }

theorem fieldQuery_finite (name : String) : (fieldQuery name).Finite :=
  ⟨by simp [fieldQuery], by simp [fieldQuery], by simpa [fieldQuery] using .field name⟩

/-- Not every text is kept: a delete character makes a YAML text unreadable, and a next-line
character is folded into a blank. -/
theorem fieldQuery_formats_differ :
    (fieldQuery "\x7f").Finite ∧ (fieldQuery "\x85").Finite ∧
      (fieldQuery "\x7f").toDocument.depth ≤ AggQuery.nestingLimit ∧
      (fieldQuery "\x85").toDocument.depth ≤ AggQuery.nestingLimit ∧
      Query.ofInput .json (fieldQuery "\x7f").toDocument.compact = .ok (fieldQuery "\x7f") ∧
      Query.ofInput .yaml (fieldQuery "\x7f").toDocument.compact = .error .malformedYaml ∧
      Query.ofInput .json (fieldQuery "\x85").toDocument.compact = .ok (fieldQuery "\x85") ∧
      Query.ofInput .yaml (fieldQuery "\x85").toDocument.compact = .ok (fieldQuery " ") :=
  ⟨fieldQuery_finite _, fieldQuery_finite _, by decide +kernel⟩

end AggQuery
