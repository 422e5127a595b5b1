import AggQuery.Proofs.Reading.DocumentOutline
import AggQuery.Yaml.Document

/-!
# Outlines of YAML texts

A YAML text shows an outline as a JSON text does, with every alias replaced by the node that it
stands for. A text shows at most one outline (`Outline.OfYaml.unique`), and the document read
from the text has this outline with the equal keys of each object merged (`exists_outline`): the
first of them keeps its place and the last of them its value.

## Implementation notes

`Shows` recurses on the outline, not on the nodes: a node is found through the anchors and need
not be a part of the node where its alias stands. `shows` decides the relation. The reader counts
the aliases that it follows and the collections that it opens, which decides whether there is a
document but not which one.
-/

namespace AggQuery

/-- Give a key a value: in place where the key is present, at the end otherwise. -/
def OutlineFields.assign (fields : OutlineFields) (key : Option String) (value : Outline) :
    OutlineFields :=
  match fields with
  | [] => [(key, value)]
  | (given, old) :: rest =>
    if given = key then (given, value) :: rest else (given, old) :: assign rest key value

namespace Outline

mutual

/-- The outline of what is left when equal keys of an object are merged. -/
def merged : Outline → Outline
  | .scalar => .scalar
  | .array items => .array (mergedItems items)
  | .object fields => .object (mergedFields [] fields)

/-- The items of an array, each of them merged. -/
def mergedItems : List Outline → List Outline
  | [] => []
  | item :: items => merged item :: mergedItems items

/-- Fields behind those that were merged before. -/
def mergedFields (acc : OutlineFields) : List (Option String × Outline) → OutlineFields
  | [] => acc
  | (key, value) :: fields => mergedFields (acc.assign key (merged value)) fields

end

end Outline

theorem Document.outlineFields_set (fields : Fields) (key : String) (value : Document) :
    outlineFields (fields.set key value) =
      (outlineFields fields).assign (some key) value.outline := by
  induction fields with
  | nil => rfl
  | cons entry fields ih =>
      obtain ⟨given, old⟩ := entry
      rw [Fields.set, outlineFields, OutlineFields.assign]
      by_cases hkey : given = key
      · rw [if_pos hkey, if_pos (congrArg some hkey), outlineFields]
      · rw [if_neg hkey, if_neg fun h => hkey (Option.some.inj h), outlineFields, ih]

namespace Yaml

section Scalars

variable {document : Document}

theorem outline_floatDocument (reading : Option Binary64) :
    (floatDocument reading).outline = .scalar := by
  cases reading <;> rfl

theorem outline_plainDocument {text : List Char}
    (h : plainDocument text = some document) : document.outline = .scalar := by
  unfold plainDocument at h
  split at h
  · cases h
    rfl
  split at h
  · cases h
    rfl
  split at h
  · cases h
    rfl
  · cases h
  split at h
  · cases h
    rfl
  split at h
  · cases h
    exact outline_floatDocument _
  · cases h
    rfl

theorem outline_scalarDocument {tag : Option (List Char)} {plain : Bool} {text : List Char}
    (h : scalarDocument tag plain text = some document) : document.outline = .scalar := by
  unfold scalarDocument at h
  split at h
  · split at h
    · exact outline_plainDocument h
    · cases h
      rfl
  split at h
  · cases h
  split at h
  · obtain ⟨b, -, rfl⟩ := Option.map_eq_some_iff.mp h
    rfl
  split at h
  · split at h
    · cases h
      rfl
    · cases h
  split at h
  · obtain ⟨reading, -, rfl⟩ := Option.map_eq_some_iff.mp h
    exact outline_floatDocument reading
  split at h
  · split at h
    · cases h
      rfl
    · cases h
  · cases h
    rfl

end Scalars

namespace Stream

variable {stream : Stream} {node : Node} {document : Document} {budget used after : Nat}

/-- The node itself, or the one that an alias stands for. -/
def target (stream : Stream) (node : Node) : Option Node :=
  match node with
  | .alias number => stream.anchors.node? number
  | _ => some node

/-- The key that a node gives. -/
def keyOf (stream : Stream) (node : Node) : Option String :=
  match stream.target node with
  | some (.scalar _ _ text) => some (String.ofList text)
  | _ => none

mutual

/-- A node is a value of this outline. -/
def Shows (stream : Stream) : Outline → Node → Prop
  | .scalar, node => ∃ tag plain text, stream.target node = some (.scalar tag plain text)
  | .array items, node =>
    ∃ tag nodes, stream.target node = some (.sequence tag nodes) ∧ ShowsItems stream items nodes
  | .object fields, node =>
    ∃ tag entries, stream.target node = some (.mapping tag entries) ∧
      ShowsFields stream fields entries

/-- Nodes are the items of an array. -/
def ShowsItems (stream : Stream) : List Outline → List Node → Prop
  | [], nodes => nodes = []
  | item :: items, nodes =>
    ∃ node rest, nodes = node :: rest ∧ Shows stream item node ∧ ShowsItems stream items rest

/-- Entries are the fields of an object. -/
def ShowsFields (stream : Stream) : List (Option String × Outline) → List (Node × Node) → Prop
  | [], entries => entries = []
  | (key, value) :: fields, entries =>
    ∃ given node rest, entries = (given, node) :: rest ∧ key = stream.keyOf given ∧
      Shows stream value node ∧ ShowsFields stream fields rest

end

section Deciding

mutual

/-- Whether a node is a value of this outline. -/
def shows (stream : Stream) : Outline → Node → Bool
  | .scalar, node =>
    match stream.target node with
    | some (.scalar _ _ _) => true
    | _ => false
  | .array items, node =>
    match stream.target node with
    | some (.sequence _ nodes) => showsItems stream items nodes
    | _ => false
  | .object fields, node =>
    match stream.target node with
    | some (.mapping _ entries) => showsFields stream fields entries
    | _ => false

/-- Whether nodes are the items of an array. -/
def showsItems (stream : Stream) : List Outline → List Node → Bool
  | item :: items, node :: nodes => shows stream item node && showsItems stream items nodes
  | [], [] => true
  | _, _ => false

/-- Whether entries are the fields of an object. -/
def showsFields (stream : Stream) : List (Option String × Outline) → List (Node × Node) → Bool
  | (key, value) :: fields, (given, node) :: entries =>
    key == stream.keyOf given && shows stream value node && showsFields stream fields entries
  | [], [] => true
  | _, _ => false

end

mutual

theorem shows_iff : ∀ {outline : Outline} {node : Node},
    stream.shows outline node = true ↔ stream.Shows outline node
  | .scalar, node => by
      simp only [shows, Shows]
      split
      · next tag plain text htarget => simp [htarget]
      · next hnone => simpa using fun tag plain text h => hnone tag plain text h
  | .array items, node => by
      simp only [shows, Shows]
      split
      · next tag nodes htarget => simp [htarget, showsItems_iff]
      · next hnone => simpa using fun tag nodes h => (hnone tag nodes h).elim
  | .object fields, node => by
      simp only [shows, Shows]
      split
      · next tag entries htarget => simp [htarget, showsFields_iff]
      · next hnone => simpa using fun tag entries h => (hnone tag entries h).elim

theorem showsItems_iff : ∀ {items : List Outline} {nodes : List Node},
    stream.showsItems items nodes = true ↔ stream.ShowsItems items nodes
  | [], [] | [], _ :: _ | _ :: _, [] => by simp [showsItems, ShowsItems]
  | item :: items, node :: nodes => by
      simp [showsItems, ShowsItems, shows_iff, showsItems_iff]

theorem showsFields_iff : ∀ {fields : OutlineFields} {entries : List (Node × Node)},
    stream.showsFields fields entries = true ↔ stream.ShowsFields fields entries
  | [], [] | [], _ :: _ | _ :: _, [] => by simp [showsFields, ShowsFields]
  | (key, value) :: fields, (given, node) :: entries => by
      simp [showsFields, ShowsFields, shows_iff, showsFields_iff, and_assoc]

end

end Deciding

theorem target_of_follow {next : Node} (h : stream.follow node used = some (next, after)) :
    stream.target node = some next := by
  cases node with
  | scalar | sequence | mapping => exact congrArg some (congrArg Prod.fst (Option.some.inj h))
  | _ number =>
      rw [follow] at h
      split at h
      · cases h
      · obtain ⟨found, hfound, heq⟩ := Option.map_eq_some_iff.mp h
        obtain ⟨rfl, -⟩ := Prod.mk.inj heq
        exact hfound

theorem keyOf_of_keyText {key : String} (h : stream.keyText node used = some (key, after)) :
    stream.keyOf node = some key := by
  unfold keyText at h
  split at h
  · next tag plain text between hfollow =>
      rw [keyOf, target_of_follow hfollow]
      exact congrArg some (congrArg Prod.fst (Option.some.inj h))
  · cases h

/-- What a document is read from. -/
theorem toDocument_cases (h : stream.toDocument budget node used = some (document, after)) :
    (∃ tag plain text, stream.target node = some (.scalar tag plain text) ∧
      scalarDocument tag plain text = some document) ∨
    (∃ tag items documents less between, stream.target node = some (.sequence tag items) ∧
      budget = less + 1 ∧ document = .array documents ∧
      itemsWith (stream.toDocument less) items between = some (documents, after)) ∨
    ∃ tag entries fields less between, stream.target node = some (.mapping tag entries) ∧
      budget = less + 1 ∧ document = .object fields ∧
      stream.entriesWith (stream.toDocument less) [] entries between = some (fields, after) := by
  rw [toDocument.eq_def] at h
  split at h
  · cases h
  · cases h
  · next tag plain text between hfollow =>
      obtain ⟨document, hscalar, heq⟩ := Option.map_eq_some_iff.mp h
      obtain ⟨rfl, rfl⟩ := Prod.mk.inj heq
      exact .inl ⟨tag, plain, text, target_of_follow hfollow, hscalar⟩
  · next tag items between hfollow =>
      cases budget with
      | zero => cases h
      | succ less =>
          dsimp only at h
          split at h
          · cases h
          obtain ⟨⟨documents, used⟩, hitems, heq⟩ := Option.map_eq_some_iff.mp h
          obtain ⟨rfl, rfl⟩ := Prod.mk.inj heq
          exact .inr (.inl ⟨tag, items, documents, less, between, target_of_follow hfollow, rfl,
            rfl, hitems⟩)
  · next tag entries between hfollow =>
      cases budget with
      | zero => cases h
      | succ less =>
          dsimp only at h
          split at h
          · cases h
          obtain ⟨⟨fields, used⟩, hentries, heq⟩ := Option.map_eq_some_iff.mp h
          obtain ⟨rfl, rfl⟩ := Prod.mk.inj heq
          exact .inr (.inr ⟨tag, entries, fields, less, between, target_of_follow hfollow, rfl,
            rfl, hentries⟩)

section Uniqueness

/-- No node shows this outline and another one. -/
def Determines (stream : Stream) (outline : Outline) : Prop :=
  ∀ ⦃other : Outline⦄ ⦃node⦄, stream.Shows outline node → stream.Shows other node →
    outline = other

theorem showsItems_unique {items others : List Outline} {nodes : List Node}
    (h : ∀ item ∈ items, stream.Determines item) (hshow : stream.ShowsItems items nodes)
    (hother : stream.ShowsItems others nodes) : items = others := by
  induction items generalizing others nodes with
  | nil =>
      obtain rfl := hshow
      cases others with
      | nil => rfl
      | cons other others =>
          obtain ⟨node, rest, hnodes, -⟩ := hother
          cases hnodes
  | cons item items ih =>
      obtain ⟨hitem, hitems⟩ := List.forall_mem_cons.mp h
      obtain ⟨node, rest, rfl, hnode, hrest⟩ := hshow
      cases others with
      | nil => cases hother
      | cons other others =>
          obtain ⟨_, _, hnodes, hnode', hrest'⟩ := hother
          obtain ⟨rfl, rfl⟩ := List.cons.inj hnodes
          rw [hitem hnode hnode', ih hitems hrest hrest']

theorem showsFields_unique {fields others : OutlineFields} {entries : List (Node × Node)}
    (h : ∀ entry ∈ fields, stream.Determines entry.2) (hshow : stream.ShowsFields fields entries)
    (hother : stream.ShowsFields others entries) : fields = others := by
  induction fields generalizing others entries with
  | nil =>
      obtain rfl := hshow
      cases others with
      | nil => rfl
      | cons other others =>
          obtain ⟨given, node, rest, hentries, -⟩ := hother
          cases hentries
  | cons entry fields ih =>
      obtain ⟨hentry, hfields⟩ := List.forall_mem_cons.mp h
      obtain ⟨key, value⟩ := entry
      obtain ⟨given, node, rest, rfl, rfl, hnode, hrest⟩ := hshow
      cases others with
      | nil => cases hother
      | cons other others =>
          obtain ⟨key, value'⟩ := other
          obtain ⟨_, _, _, hentries, rfl, hnode', hrest'⟩ := hother
          obtain ⟨hpair, rfl⟩ := List.cons.inj hentries
          obtain ⟨rfl, rfl⟩ := Prod.mk.inj hpair
          obtain rfl : value = value' := hentry hnode hnode'
          rw [ih hfields hrest hrest']

theorem determines (outline : Outline) : stream.Determines outline := by
  induction outline using Outline.inductionOn with
  | scalar =>
      intro other node hshow hother
      obtain ⟨tag, plain, text, htarget⟩ := hshow
      cases other with
      | scalar => rfl
      | array | object =>
          obtain ⟨_, _, htarget', -⟩ := hother
          cases htarget.symm.trans htarget'
  | array items ih =>
      intro other node hshow hother
      obtain ⟨tag, nodes, htarget, hitems⟩ := hshow
      cases other with
      | array others =>
          obtain ⟨_, _, htarget', hothers⟩ := hother
          cases htarget.symm.trans htarget'
          rw [showsItems_unique ih hitems hothers]
      | scalar =>
          obtain ⟨_, _, _, htarget'⟩ := hother
          cases htarget.symm.trans htarget'
      | object =>
          obtain ⟨_, _, htarget', -⟩ := hother
          cases htarget.symm.trans htarget'
  | object fields ih =>
      intro other node hshow hother
      obtain ⟨tag, entries, htarget, hfields⟩ := hshow
      cases other with
      | object others =>
          obtain ⟨_, _, htarget', hothers⟩ := hother
          cases htarget.symm.trans htarget'
          rw [showsFields_unique ih hfields hothers]
      | scalar =>
          obtain ⟨_, _, _, htarget'⟩ := hother
          cases htarget.symm.trans htarget'
      | array =>
          obtain ⟨_, _, htarget', -⟩ := hother
          cases htarget.symm.trans htarget'

end Uniqueness

section Merging

variable {read : Node → Nat → Option (Document × Nat)}

/-- What a reader takes is a value of some outline, and its document has the merged outline. -/
def Merges (stream : Stream) (read : Node → Nat → Option (Document × Nat)) : Prop :=
  ∀ ⦃node used document after⦄, read node used = some (document, after) →
    ∃ outline : Outline, stream.Shows outline node ∧ document.outline = outline.merged

theorem itemsWith_merges (hread : stream.Merges read) {nodes : List Node}
    {documents : List Document} (h : itemsWith read nodes used = some (documents, after)) :
    ∃ items, stream.ShowsItems items nodes ∧
      Document.outlineItems documents = Outline.mergedItems items := by
  induction nodes generalizing documents used with
  | nil =>
      cases h
      exact ⟨[], rfl, rfl⟩
  | cons node rest ih =>
      obtain ⟨⟨document, between⟩, hdocument, h⟩ := Option.bind_eq_some_iff.mp h
      obtain ⟨⟨others, last⟩, hothers, heq⟩ := Option.bind_eq_some_iff.mp h
      cases heq
      obtain ⟨item, hitem, houtline⟩ := hread hdocument
      obtain ⟨items, hitems, hmerged⟩ := ih hothers
      refine ⟨item :: items, ⟨node, rest, rfl, hitem, hitems⟩, ?_⟩
      rw [Document.outlineItems, Outline.mergedItems, houtline, hmerged]

theorem entriesWith_merges (hread : stream.Merges read) {entries : List (Node × Node)}
    {acc given : Fields} (h : stream.entriesWith read acc entries used = some (given, after)) :
    ∃ fields, stream.ShowsFields fields entries ∧
      Document.outlineFields given =
        Outline.mergedFields (Document.outlineFields acc) fields := by
  induction entries generalizing acc used with
  | nil =>
      cases h
      exact ⟨[], rfl, rfl⟩
  | cons entry rest ih =>
      obtain ⟨keyNode, node⟩ := entry
      obtain ⟨⟨key, between⟩, hkey, h⟩ := Option.bind_eq_some_iff.mp h
      obtain ⟨⟨document, last⟩, hdocument, h⟩ := Option.bind_eq_some_iff.mp h
      obtain ⟨value, hvalue, houtline⟩ := hread hdocument
      obtain ⟨fields, hfields, hmerged⟩ := ih h
      refine ⟨(some key, value) :: fields,
        ⟨keyNode, node, rest, rfl, (keyOf_of_keyText hkey).symm, hvalue, hfields⟩, ?_⟩
      rw [hmerged, Outline.mergedFields, Document.outlineFields_set, houtline]

/-- A node that is read shows an outline, and its document has this outline merged. -/
theorem toDocument_merges (budget : Nat) : stream.Merges (stream.toDocument budget) := by
  induction budget with
  | zero =>
      intro node used document after h
      rcases toDocument_cases h with ⟨tag, plain, text, htarget, hscalar⟩ |
        ⟨_, _, _, _, _, -, hless, -⟩ | ⟨_, _, _, _, _, -, hless, -⟩
      · exact ⟨.scalar, ⟨tag, plain, text, htarget⟩, outline_scalarDocument hscalar⟩
      all_goals cases hless
  | succ budget ih =>
      intro node used document after h
      rcases toDocument_cases h with ⟨tag, plain, text, htarget, hscalar⟩ |
        ⟨tag, nodes, _, less, _, htarget, hless, rfl, hread⟩ |
        ⟨tag, entries, _, less, _, htarget, hless, rfl, hread⟩
      · exact ⟨.scalar, ⟨tag, plain, text, htarget⟩, outline_scalarDocument hscalar⟩
      · obtain rfl := Nat.succ.inj hless
        obtain ⟨items, hitems, hmerged⟩ := itemsWith_merges ih hread
        exact ⟨.array items, ⟨tag, nodes, htarget, hitems⟩, congrArg Outline.array hmerged⟩
      · obtain rfl := Nat.succ.inj hless
        obtain ⟨fields, hfields, hmerged⟩ := entriesWith_merges ih hread
        exact ⟨.object fields, ⟨tag, entries, htarget, hfields⟩, congrArg Outline.object hmerged⟩

end Merging

end Stream

end Yaml

/-- A YAML text holds a value of this outline. -/
def Outline.OfYaml (outline : Outline) (text : String) : Prop :=
  ∃ tokens stream, Yaml.tokenize text = some tokens ∧ Yaml.Stream.ofTokens? tokens = some stream ∧
    stream.Shows outline stream.root

instance (outline : Outline) (text : String) : Decidable (outline.OfYaml text) :=
  decidable_of_iff (((Yaml.tokenize text).bind Yaml.Stream.ofTokens?).any fun stream =>
      stream.shows outline stream.root) <| by
    simp only [Outline.OfYaml, Option.any_eq_true, Option.bind_eq_some_iff, Yaml.Stream.shows_iff]
    constructor
    · rintro ⟨stream, ⟨tokens, htokens, hstream⟩, hshow⟩
      exact ⟨tokens, stream, htokens, hstream, hshow⟩
    · rintro ⟨tokens, stream, htokens, hstream, hshow⟩
      exact ⟨stream, ⟨tokens, htokens, hstream⟩, hshow⟩

/-- A YAML text holds at most one outline. -/
theorem Outline.OfYaml.unique {outline other : Outline} {text : String} (h : outline.OfYaml text)
    (hother : other.OfYaml text) : outline = other := by
  obtain ⟨tokens, stream, htokens, hstream, hshow⟩ := h
  obtain ⟨tokens', stream', htokens', hstream', hshow'⟩ := hother
  cases htokens.symm.trans htokens'
  cases hstream.symm.trans hstream'
  exact Yaml.Stream.determines outline hshow hshow'

namespace Yaml

variable {text : String} {document : Document}

/-- A text that is read as a document holds a value of some outline, and the document has this
outline with equal keys merged. -/
theorem exists_outline (h : parse text = some document) :
    ∃ outline : Outline, outline.OfYaml text ∧ document.outline = outline.merged := by
  obtain ⟨tokens, htokens, h⟩ := Option.bind_eq_some_iff.mp h
  obtain ⟨stream, hstream, h⟩ := Option.bind_eq_some_iff.mp h
  obtain ⟨⟨document, after⟩, hdocument, heq⟩ := Option.bind_eq_some_iff.mp h
  cases heq
  obtain ⟨outline, hshow, hmerged⟩ := Stream.toDocument_merges nestingLimit hdocument
  exact ⟨outline, ⟨tokens, stream, htokens, hstream, hshow⟩, hmerged⟩

end Yaml

end AggQuery
