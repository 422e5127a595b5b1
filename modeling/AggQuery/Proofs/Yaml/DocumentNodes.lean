import AggQuery.Proofs.Document.Reading
import AggQuery.Proofs.Yaml.DocumentTokens

/-!
# Nodes of document text

The tokens of a document are arranged as one node (`ofTokens?_tokensOnto`), and that node stands
for the document again, if no object has a key twice, every number fits a 64-bit word and the
nesting stays below the limit (`stands_of_legible`).

## Implementation notes

As for the reader of documents, fuel is measured against what is read: two units for each
token. A node takes one for itself, one for its content, and one for each item or entry.
-/

namespace AggQuery.Yaml

open Document

mutual

/-- A document as a node: words and numbers are plain scalars, strings and keys quoted ones. -/
def nodeOf : Document → Node
  | .null => .scalar none true nullText
  | .boolean b => .scalar none true (booleanText b)
  | .number n => .scalar none true (numberText n)
  | .string s => .scalar none false s.toList
  | .array items => .sequence none (itemNodes items)
  | .object fields => .mapping none (fieldNodes fields)

/-- The items of an array as nodes. -/
def itemNodes : List Document → List Node
  | [] => []
  | item :: items => nodeOf item :: itemNodes items

/-- The fields of an object as entries of nodes. -/
def fieldNodes : Fields → List (Node × Node)
  | [] => []
  | (key, value) :: fields =>
    (.scalar none false key.toList, nodeOf value) :: fieldNodes fields

end

/-- A token that starts the content of a node. -/
inductive StartsNode : Token → Prop
  | scalar (plain : Bool) (text : List Char) : StartsNode (.scalar plain text)
  | sequence : StartsNode .flowSequenceStart
  | mapping : StartsNode .flowMappingStart

theorem exists_startsNode (document : Document) (rest : List Token) :
    ∃ token more, tokensOnto document rest = token :: more ∧ StartsNode token := by
  cases document with
  | null => exact ⟨_, _, rfl, .scalar _ _⟩
  | boolean b => exact ⟨_, _, rfl, .scalar _ _⟩
  | number n => exact ⟨_, _, rfl, .scalar _ _⟩
  | string s => exact ⟨_, _, rfl, .scalar _ _⟩
  | array items => cases items <;> exact ⟨_, _, rfl, .sequence⟩
  | object fields => cases fields <;> exact ⟨_, _, rfl, .mapping⟩

section Steps

variable {handles : TagHandles} {block indentless : Bool} {anchors : Anchors} {token : Token}
  {tokens : List Token}

theorem nodeOfTokens_succ (htoken : StartsNode token) (fuel : Nat) :
    nodeOfTokens (fuel + 1) handles block indentless anchors (token :: tokens) =
      content fuel handles block indentless {} anchors (token :: tokens) := by
  cases htoken <;> rfl

theorem flowItems_first (htoken : StartsNode token) (fuel : Nat) (acc : List Node) :
    flowItems (fuel + 1) handles true acc anchors (token :: tokens) =
      (nodeOfTokens fuel handles false false anchors (token :: tokens)).bind
        fun (item, anchors, rest) => flowItems fuel handles false (item :: acc) anchors rest := by
  cases htoken <;> rfl

theorem flowItems_next (htoken : StartsNode token) (fuel : Nat) (acc : List Node) :
    flowItems (fuel + 1) handles false acc anchors (.flowEntry :: token :: tokens) =
      (nodeOfTokens fuel handles false false anchors (token :: tokens)).bind
        fun (item, anchors, rest) => flowItems fuel handles false (item :: acc) anchors rest := by
  cases htoken <;> rfl

theorem nodeOfTokens_scalar (fuel : Nat) (plain : Bool) (text : List Char) :
    nodeOfTokens (fuel + 2) handles block indentless anchors (.scalar plain text :: tokens) =
      some (.scalar none plain text, anchors, tokens) := by
  rfl

theorem flowEntries_first (htoken : StartsNode token) (fuel : Nat) (acc : List (Node × Node))
    (key : String) :
    flowEntries (fuel + 3) handles true acc anchors (keyTokensOnto key (token :: tokens)) =
      (nodeOfTokens (fuel + 2) handles false false anchors (token :: tokens)).bind
        fun (value, anchors, rest) => flowEntries (fuel + 2) handles false
          ((.scalar none false key.toList, value) :: acc) anchors rest := by
  cases htoken <;> rfl

theorem flowEntries_next (htoken : StartsNode token) (fuel : Nat) (acc : List (Node × Node))
    (key : String) :
    flowEntries (fuel + 3) handles false acc anchors
        (.flowEntry :: keyTokensOnto key (token :: tokens)) =
      (nodeOfTokens (fuel + 2) handles false false anchors (token :: tokens)).bind
        fun (value, anchors, rest) => flowEntries (fuel + 2) handles false
          ((.scalar none false key.toList, value) :: acc) anchors rest := by
  cases htoken <;> rfl

end Steps

/-- The tokens of a document are arranged as its node, in front of any others. -/
def Builds (document : Document) : Prop :=
  ∀ {handles : TagHandles} {block indentless : Bool} {anchors : Anchors} {rest : List Token}
    {fuel : Nat}, 2 * (tokensOnto document rest).length ≤ fuel + 2 * rest.length →
      nodeOfTokens fuel handles block indentless anchors (tokensOnto document rest) =
        some (nodeOf document, anchors, rest)

mutual

theorem length_tokensOnto : ∀ (document : Document) (rest : List Token),
    rest.length < (tokensOnto document rest).length
  | .null, rest | .boolean _, rest | .number _, rest | .string _, rest => Nat.lt_succ_self _
  | .array [], rest | .object [], rest => by
      simp only [tokensOnto, List.length_cons]
      omega
  | .array (item :: items), rest => by
      have hitem := length_tokensOnto item (itemTokensOnto items (.flowSequenceEnd :: rest))
      have hitems := length_itemTokensOnto items (.flowSequenceEnd :: rest)
      simp only [tokensOnto, List.length_cons] at hitems ⊢
      omega
  | .object ((_, value) :: fields), rest => by
      have hvalue := length_tokensOnto value (fieldTokensOnto fields (.flowMappingEnd :: rest))
      have hfields := length_fieldTokensOnto fields (.flowMappingEnd :: rest)
      simp only [tokensOnto, keyTokensOnto, List.length_cons] at hfields ⊢
      omega

theorem length_itemTokensOnto : ∀ (items : List Document) (rest : List Token),
    rest.length ≤ (itemTokensOnto items rest).length
  | [], rest => Nat.le_refl _
  | item :: items, rest => by
      have hitem := length_tokensOnto item (itemTokensOnto items rest)
      have hitems := length_itemTokensOnto items rest
      simp only [itemTokensOnto, List.length_cons]
      omega

theorem length_fieldTokensOnto : ∀ (fields : Fields) (rest : List Token),
    rest.length ≤ (fieldTokensOnto fields rest).length
  | [], rest => Nat.le_refl _
  | (_, value) :: fields, rest => by
      have hvalue := length_tokensOnto value (fieldTokensOnto fields rest)
      have hfields := length_fieldTokensOnto fields rest
      simp only [fieldTokensOnto, keyTokensOnto, List.length_cons]
      omega

end

/-- A scalar is a node of its own. -/
theorem builds_scalar {document : Document} {plain : Bool} {text : List Char}
    (htokens : ∀ rest, tokensOnto document rest = .scalar plain text :: rest)
    (hnode : nodeOf document = .scalar none plain text) : Builds document := by
  intro handles block indentless anchors rest fuel hfuel
  rw [htokens, List.length_cons] at hfuel
  obtain ⟨less, rfl⟩ := Nat.exists_eq_add_of_le' (show 2 ≤ fuel by omega)
  rw [htokens, hnode, nodeOfTokens_scalar]

section Collections

variable {handles : TagHandles} {anchors : Anchors} {rest : List Token} {fuel : Nat}

/-- The items after the first, up to the closing bracket. -/
theorem flowItems_itemTokens {items : List Document} (hitems : ∀ item ∈ items, Builds item)
    (acc : List Node)
    (hfuel : 2 * (itemTokensOnto items (.flowSequenceEnd :: rest)).length ≤
      fuel + 2 * rest.length) :
    flowItems fuel handles false acc anchors (itemTokensOnto items (.flowSequenceEnd :: rest)) =
      some (acc.reverse ++ itemNodes items, anchors, rest) := by
  induction items generalizing acc fuel with
  | nil =>
      rw [itemTokensOnto, List.length_cons] at hfuel
      obtain ⟨less, rfl⟩ := Nat.exists_eq_add_one.mpr (show 0 < fuel by omega)
      rw [itemTokensOnto, itemNodes, List.append_nil]
      rfl
  | cons item items ih =>
      obtain ⟨hitem, hitems⟩ := List.forall_mem_cons.mp hitems
      have hlength := length_tokensOnto item (itemTokensOnto items (.flowSequenceEnd :: rest))
      have hlast := length_itemTokensOnto items (.flowSequenceEnd :: rest)
      rw [List.length_cons] at hlast
      rw [itemTokensOnto, List.length_cons] at hfuel
      obtain ⟨less, rfl⟩ := Nat.exists_eq_add_one.mpr (show 0 < fuel by omega)
      obtain ⟨token, more, htokens, htoken⟩ :=
        exists_startsNode item (itemTokensOnto items (.flowSequenceEnd :: rest))
      rw [itemTokensOnto, htokens, flowItems_next htoken, ← htokens, hitem (by omega),
        Option.bind_some]
      dsimp only
      rw [ih hitems _ (by omega), itemNodes]
      simp

/-- The fields after the first, up to the closing bracket. -/
theorem flowEntries_fieldTokens {fields : Fields} (hvalues : ∀ entry ∈ fields, Builds entry.2)
    (acc : List (Node × Node))
    (hfuel : 2 * (fieldTokensOnto fields (.flowMappingEnd :: rest)).length ≤
      fuel + 2 * rest.length) :
    flowEntries fuel handles false acc anchors (fieldTokensOnto fields (.flowMappingEnd :: rest)) =
      some (acc.reverse ++ fieldNodes fields, anchors, rest) := by
  induction fields generalizing acc fuel with
  | nil =>
      rw [fieldTokensOnto, List.length_cons] at hfuel
      obtain ⟨less, rfl⟩ := Nat.exists_eq_add_one.mpr (show 0 < fuel by omega)
      rw [fieldTokensOnto, fieldNodes, List.append_nil]
      rfl
  | cons entry fields ih =>
      obtain ⟨key, value⟩ := entry
      obtain ⟨hvalue, hvalues⟩ := List.forall_mem_cons.mp hvalues
      have hvalue : Builds value := hvalue
      have hlength := length_tokensOnto value (fieldTokensOnto fields (.flowMappingEnd :: rest))
      have hlast := length_fieldTokensOnto fields (.flowMappingEnd :: rest)
      rw [List.length_cons] at hlast
      simp only [fieldTokensOnto, keyTokensOnto, List.length_cons] at hfuel
      obtain ⟨less, rfl⟩ := Nat.exists_eq_add_of_le' (show 3 ≤ fuel by omega)
      obtain ⟨token, more, htokens, htoken⟩ :=
        exists_startsNode value (fieldTokensOnto fields (.flowMappingEnd :: rest))
      rw [fieldTokensOnto, htokens, flowEntries_next htoken, ← htokens, hvalue (by omega),
        Option.bind_some]
      dsimp only
      rw [ih hvalues _ (by omega), fieldNodes]
      simp

end Collections

theorem builds_array {items : List Document} (hitems : ∀ item ∈ items, Builds item) :
    Builds (.array items) := by
  intro handles block indentless anchors rest fuel hfuel
  cases items with
  | nil =>
      simp only [tokensOnto, List.length_cons] at hfuel
      obtain ⟨less, rfl⟩ := Nat.exists_eq_add_of_le' (show 3 ≤ fuel by omega)
      rfl
  | cons item items =>
      obtain ⟨hitem, hitems⟩ := List.forall_mem_cons.mp hitems
      have hlength := length_tokensOnto item (itemTokensOnto items (.flowSequenceEnd :: rest))
      have hlast := length_itemTokensOnto items (.flowSequenceEnd :: rest)
      rw [List.length_cons] at hlast
      rw [tokensOnto, List.length_cons] at hfuel
      obtain ⟨less, rfl⟩ := Nat.exists_eq_add_of_le' (show 3 ≤ fuel by omega)
      obtain ⟨token, more, htokens, htoken⟩ :=
        exists_startsNode item (itemTokensOnto items (.flowSequenceEnd :: rest))
      rw [tokensOnto, nodeOfTokens_succ .sequence, content]
      dsimp only
      rw [htokens, flowItems_first htoken, ← htokens, hitem (by omega), Option.bind_some]
      dsimp only
      rw [flowItems_itemTokens hitems _ (by omega), nodeOf, itemNodes]
      rfl

theorem builds_object {fields : Fields} (hvalues : ∀ entry ∈ fields, Builds entry.2) :
    Builds (.object fields) := by
  intro handles block indentless anchors rest fuel hfuel
  cases fields with
  | nil =>
      simp only [tokensOnto, List.length_cons] at hfuel
      obtain ⟨less, rfl⟩ := Nat.exists_eq_add_of_le' (show 3 ≤ fuel by omega)
      rfl
  | cons entry fields =>
      obtain ⟨key, value⟩ := entry
      obtain ⟨hvalue, hvalues⟩ := List.forall_mem_cons.mp hvalues
      have hvalue : Builds value := hvalue
      have hlength := length_tokensOnto value (fieldTokensOnto fields (.flowMappingEnd :: rest))
      have hlast := length_fieldTokensOnto fields (.flowMappingEnd :: rest)
      rw [List.length_cons] at hlast
      simp only [tokensOnto, keyTokensOnto, List.length_cons] at hfuel
      obtain ⟨less, rfl⟩ := Nat.exists_eq_add_of_le' (show 5 ≤ fuel by omega)
      obtain ⟨token, more, htokens, htoken⟩ :=
        exists_startsNode value (fieldTokensOnto fields (.flowMappingEnd :: rest))
      rw [tokensOnto, nodeOfTokens_succ .mapping, content]
      dsimp only
      rw [htokens, flowEntries_first htoken, ← htokens, hvalue (by omega), Option.bind_some]
      dsimp only
      rw [flowEntries_fieldTokens hvalues _ (by omega), nodeOf, fieldNodes]
      rfl

mutual

theorem builds : ∀ document : Document, Builds document
  | .null | .boolean _ | .number _ | .string _ => builds_scalar (fun _ => rfl) rfl
  | .array items => builds_array (builds_items items)
  | .object fields => builds_object (builds_fields fields)

theorem builds_items : ∀ items : List Document, ∀ item ∈ items, Builds item
  | [] => by simp
  | item :: items => List.forall_mem_cons.mpr ⟨builds item, builds_items items⟩

theorem builds_fields : ∀ fields : Fields, ∀ entry ∈ fields, Builds entry.2
  | [] => by simp
  | (_, value) :: fields => List.forall_mem_cons.mpr ⟨builds value, builds_fields fields⟩

end

/-- The tokens of a document are a stream of its node alone. -/
theorem ofTokens?_tokensOnto (document : Document) :
    Stream.ofTokens? (tokensOnto document []) = some { root := nodeOf document } := by
  have hbuilds := @builds document defaultHandles true false {} []
    (4 * (tokensOnto document []).length + 4) (by omega)
  obtain ⟨token, more, htokens, htoken⟩ := exists_startsNode document []
  rw [htokens] at hbuilds ⊢
  unfold Stream.ofTokens?
  dsimp only
  generalize 4 * (token :: more).length + 4 = fuel at hbuilds
  cases htoken <;> simp [hbuilds]

section Values

variable {stream : Stream} {budget : Nat}

/-- The node of a document stands for the document, where it may be opened. -/
def Stands (stream : Stream) (document : Document) : Prop :=
  ∀ {budget used : Nat}, document.depth ≤ budget →
    stream.toDocument budget (nodeOf document) used = some (document, used)

theorem stands_scalar {plain : Bool} {text : List Char} {document : Document}
    (hnode : nodeOf document = .scalar none plain text)
    (h : scalarDocument none plain text = some document) : Stands stream document := by
  intro budget used _
  rw [hnode, Stream.toDocument.eq_def]
  simp [Stream.follow, h]

theorem itemsWith_itemNodes {items : List Document} (hitems : ∀ item ∈ items, Stands stream item)
    (hdepth : depthOfItems items ≤ budget) (used : Nat) :
    Stream.itemsWith (stream.toDocument budget) (itemNodes items) used = some (items, used) := by
  induction items with
  | nil => rfl
  | cons item items ih =>
      obtain ⟨hitem, hitems⟩ := List.forall_mem_cons.mp hitems
      rw [depthOfItems, Nat.max_le] at hdepth
      rw [itemNodes, Stream.itemsWith, hitem hdepth.1]
      simp [ih hitems hdepth.2]

theorem stands_array {items : List Document} (hitems : ∀ item ∈ items, Stands stream item) :
    Stands stream (.array items) := by
  intro budget used hdepth
  obtain ⟨less, rfl⟩ := Nat.exists_eq_add_one.mpr (Nat.zero_lt_of_lt hdepth)
  rw [nodeOf, Stream.toDocument.eq_def]
  simp [Stream.follow, Stream.isLocalTag,
    itemsWith_itemNodes hitems (Nat.le_of_succ_le_succ hdepth)]

theorem entriesWith_fieldNodes {fields : Fields}
    (hvalues : ∀ entry ∈ fields, Stands stream entry.2) (hdepth : depthOfFields fields ≤ budget)
    {before : Fields} (hkeys : (before ++ fields).keys.Nodup) (used : Nat) :
    Stream.entriesWith stream (stream.toDocument budget) before (fieldNodes fields) used =
      some (before ++ fields, used) := by
  induction fields generalizing before with
  | nil => simp [fieldNodes, Stream.entriesWith]
  | cons entry fields ih =>
      obtain ⟨key, value⟩ := entry
      obtain ⟨hvalue, hvalues⟩ := List.forall_mem_cons.mp hvalues
      have hvalue : Stands stream value := hvalue
      rw [depthOfFields, Nat.max_le] at hdepth
      have hnew : key ∉ before.keys := notMem_keys_of_nodup hkeys
      have hrest := @ih hvalues hdepth.2 (before ++ [(key, value)]) (by simpa using hkeys)
      rw [fieldNodes, Stream.entriesWith]
      simp [Stream.keyText, Stream.follow, hvalue hdepth.1, Fields.set_of_notMem value hnew, hrest]

theorem stands_object {fields : Fields} (hkeys : fields.keys.Nodup)
    (hvalues : ∀ entry ∈ fields, Stands stream entry.2) : Stands stream (.object fields) := by
  intro budget used hdepth
  obtain ⟨less, rfl⟩ := Nat.exists_eq_add_one.mpr (Nat.zero_lt_of_lt hdepth)
  have hentries := @entriesWith_fieldNodes stream less fields hvalues
    (Nat.le_of_succ_le_succ hdepth) [] hkeys used
  rw [nodeOf, Stream.toDocument.eq_def]
  simp [Stream.follow, Stream.isLocalTag, hentries]

/-- The node of a document whose objects have no key twice, and whose numbers fit a 64-bit
word, stands for the document. -/
theorem stands_of_legible {document : Document} (h : document.Legible Number.Fits) :
    Stands stream document := by
  induction h with
  | null => exact stands_scalar rfl rfl
  | boolean b => exact stands_scalar rfl (by cases b <;> rfl)
  | number h => exact stands_scalar rfl (by exact plainDocument_numberText h)
  | string s => exact stands_scalar rfl (by simp [scalarDocument])
  | array _ ih => exact stands_array ih
  | object hkeys _ ih => exact stands_object hkeys ih

end Values

end AggQuery.Yaml
