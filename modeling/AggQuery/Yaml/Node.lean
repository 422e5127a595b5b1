import AggQuery.Yaml.Token

/-!
# Nodes of a YAML document

`Stream.ofTokens?` arranges tokens as the tree of at most one document. A node is a scalar,
a sequence, a mapping or an alias, and may carry a tag and an anchor. Where a key, a value
or an item is left out, an empty plain scalar stands in its place.

## Implementation notes

An anchor gets a number when its node starts: the number of different anchor names before
it. An alias refers to that number, and the last node that got the number is the one meant.
Every loop takes a token for each two units of fuel.
-/

namespace AggQuery.Yaml

/-- A node. Tags are written out; `plain` is false for quoted and block scalars. -/
inductive Node where
  | scalar (tag : Option (List Char)) (plain : Bool) (text : List Char)
  | sequence (tag : Option (List Char)) (items : List Node)
  | mapping (tag : Option (List Char)) (entries : List (Node × Node))
  | alias (number : Nat)
deriving Inhabited, Repr

namespace Node

/-- The node that stands for one that was left out. -/
def empty : Node := .scalar none true []

mutual

/-- The number of scalars, aliases and ends of collections in a tree. -/
def events : Node → Nat
  | .sequence _ items => eventsOfItems items + 2
  | .mapping _ entries => eventsOfEntries entries + 2
  | _ => 1

/-- The events of the items of a sequence. -/
def eventsOfItems : List Node → Nat
  | [] => 0
  | item :: rest => item.events + eventsOfItems rest

/-- The events of the entries of a mapping. -/
def eventsOfEntries : List (Node × Node) → Nat
  | [] => 0
  | (key, value) :: rest => key.events + value.events + eventsOfEntries rest

end

end Node

/-- The anchors met so far. -/
structure Anchors where
  /-- Names with their numbers, the last definition first. -/
  names : List (List Char × Nat) := []
  /-- Numbers with the definition that got them, the last one first. -/
  slots : List (Nat × Nat) := []
  /-- Definitions with their nodes. -/
  nodes : List (Nat × Node) := []
deriving Inhabited

namespace Anchors

/-- The number of different names. -/
def size (anchors : Anchors) : Nat := (anchors.names.map Prod.fst).eraseDups.length

/-- Note that a node with an anchor starts. -/
def define (anchors : Anchors) (name : List Char) : Anchors :=
  let number := anchors.size
  { anchors with
    names := (name, number) :: anchors.names
    slots := (number, anchors.slots.length) :: anchors.slots }

/-- Note the node of a definition. -/
def record (anchors : Anchors) (definition : Nat) (node : Node) : Anchors :=
  { anchors with nodes := (definition, node) :: anchors.nodes }

/-- The number that an alias refers to. -/
def number? (anchors : Anchors) (name : List Char) : Option Nat := anchors.names.lookup name

/-- The node that a number refers to. -/
def node? (anchors : Anchors) (number : Nat) : Option Node := do
  let definition ← anchors.slots.lookup number
  anchors.nodes.lookup definition

end Anchors

/-- What tag handles stand for. -/
abbrev TagHandles := List (List Char × List Char)

/-- The handles that every document knows. -/
def defaultHandles : TagHandles :=
  [(['!'], ['!']), (['!', '!'], "tag:yaml.org,2002:".toList)]

/-- What may stand in front of the content of a node. -/
structure Properties where
  anchor : Option (List Char) := none
  tag : Option (List Char) := none
deriving Inhabited

namespace Properties

/-- A tag written out. -/
def expand (handles : TagHandles) (handle suffix : List Char) : Option (List Char) :=
  if handle.isEmpty then some suffix
  else (handles.lookup handle).map (· ++ suffix)

/-- The anchor and the tag at the start of a node, in either order. -/
def ofTokens? (handles : TagHandles) (tokens : List Token) : Option (Properties × List Token) :=
  match tokens with
  | .anchor name :: .tag handle suffix :: rest => do
    some ({ anchor := some name, tag := some (← expand handles handle suffix) }, rest)
  | .anchor name :: rest => some ({ anchor := some name }, rest)
  | .tag handle suffix :: .anchor name :: rest => do
    some ({ anchor := some name, tag := some (← expand handles handle suffix) }, rest)
  | .tag handle suffix :: rest => do
    some ({ tag := some (← expand handles handle suffix) }, rest)
  | _ => some ({}, tokens)

end Properties

/-- Whether a block item or value is left out before a token. -/
def endsBlockItem (indentless : Bool) (tokens : List Token) : Bool :=
  match tokens with
  | .blockEnd :: _ => true
  | .blockEntry :: _ => true
  | .key :: _ => indentless
  | .value :: _ => indentless
  | _ => false

/-- Whether a block key or its value is left out before a token. -/
def endsBlockPair (tokens : List Token) : Bool :=
  match tokens with
  | .key :: _ => true
  | .value :: _ => true
  | .blockEnd :: _ => true
  | _ => false

/-- Whether a key of a flow collection is left out before a token. -/
def endsFlowKey (closing : Token) (tokens : List Token) : Bool :=
  match tokens with
  | .value :: _ => true
  | .flowEntry :: _ => true
  | token :: _ => token == closing
  | [] => false

/-- Whether a value of a flow collection is left out before a token. -/
def endsFlowValue (closing : Token) (tokens : List Token) : Bool :=
  match tokens with
  | .flowEntry :: _ => true
  | token :: _ => token == closing
  | [] => false

mutual

/-- The node at the start of the tokens. Block collections are allowed where `block` is
true, and a sequence without an indentation of its own where `indentless` is. -/
def nodeOfTokens (fuel : Nat) (handles : TagHandles) (block indentless : Bool)
    (anchors : Anchors) (tokens : List Token) : Option (Node × Anchors × List Token) :=
  match fuel with
  | 0 => none
  | fuel + 1 =>
    match tokens with
    | .alias name :: rest => (anchors.number? name).map fun n => (.alias n, anchors, rest)
    | _ => do
      let (properties, rest) ← Properties.ofTokens? handles tokens
      match properties.anchor with
      | none => content fuel handles block indentless properties anchors rest
      | some name =>
        let definition := anchors.slots.length
        let (node, anchors, rest) ←
          content fuel handles block indentless properties (anchors.define name) rest
        some (node, anchors.record definition node, rest)

/-- The content of a node behind its properties. -/
def content (fuel : Nat) (handles : TagHandles) (block indentless : Bool)
    (properties : Properties) (anchors : Anchors) (tokens : List Token) :
    Option (Node × Anchors × List Token) :=
  match fuel with
  | 0 => none
  | fuel + 1 =>
    let tag := properties.tag
    let missing : Option (Node × Anchors × List Token) :=
      if properties.anchor.isSome || tag.isSome then some (.scalar tag true [], anchors, tokens)
      else none
    let asSequence (result : Option (List Node × Anchors × List Token)) :=
      result.map fun (items, anchors, rest) => (Node.sequence tag items, anchors, rest)
    let asMapping (result : Option (List (Node × Node) × Anchors × List Token)) :=
      result.map fun (entries, anchors, rest) => (Node.mapping tag entries, anchors, rest)
    match tokens with
    | .scalar plain text :: rest =>
      some (.scalar (if tag = some ['!'] then none else tag) plain text, anchors, rest)
    | .flowSequenceStart :: rest => asSequence (flowItems fuel handles true [] anchors rest)
    | .flowMappingStart :: rest => asMapping (flowEntries fuel handles true [] anchors rest)
    | .blockSequenceStart :: rest =>
      if block then asSequence (blockItems fuel handles false [] anchors rest) else missing
    | .blockMappingStart :: rest =>
      if block then asMapping (blockEntries fuel handles [] anchors rest) else missing
    | .blockEntry :: _ =>
      if indentless then asSequence (blockItems fuel handles true [] anchors tokens) else missing
    | _ => missing

/-- The remaining items of a block sequence. One without an indentation of its own ends
before any other token, and any other one at its closing token. -/
def blockItems (fuel : Nat) (handles : TagHandles) (indentless : Bool) (acc : List Node)
    (anchors : Anchors) (tokens : List Token) : Option (List Node × Anchors × List Token) :=
  match fuel with
  | 0 => none
  | fuel + 1 =>
    match tokens with
    | .blockEntry :: rest =>
      if endsBlockItem indentless rest then
        blockItems fuel handles indentless (.empty :: acc) anchors rest
      else do
        let (item, anchors, rest) ← nodeOfTokens fuel handles true false anchors rest
        blockItems fuel handles indentless (item :: acc) anchors rest
    | .blockEnd :: rest =>
      some (acc.reverse, anchors, if indentless then tokens else rest)
    | _ => if indentless then some (acc.reverse, anchors, tokens) else none

/-- The remaining entries of a block mapping. -/
def blockEntries (fuel : Nat) (handles : TagHandles) (acc : List (Node × Node))
    (anchors : Anchors) (tokens : List Token) :
    Option (List (Node × Node) × Anchors × List Token) :=
  match fuel with
  | 0 => none
  | fuel + 1 =>
    match tokens with
    | .blockEnd :: rest => some (acc.reverse, anchors, rest)
    | .key :: rest => do
      let (key, anchors, rest) ←
        if endsBlockPair rest then some (.empty, anchors, rest)
        else nodeOfTokens fuel handles true true anchors rest
      let (value, anchors, rest) ←
        match rest with
        | .value :: rest =>
          if endsBlockPair rest then some (.empty, anchors, rest)
          else nodeOfTokens fuel handles true true anchors rest
        | _ => some (.empty, anchors, rest)
      blockEntries fuel handles ((key, value) :: acc) anchors rest
    | _ => none

/-- The remaining items of a flow sequence. An item may be a mapping of one entry without
braces; where its key is left out the token behind the question mark is passed over. -/
def flowItems (fuel : Nat) (handles : TagHandles) (first : Bool) (acc : List Node)
    (anchors : Anchors) (tokens : List Token) : Option (List Node × Anchors × List Token) :=
  match fuel with
  | 0 => none
  | fuel + 1 =>
    match tokens with
    | .flowSequenceEnd :: rest => some (acc.reverse, anchors, rest)
    | _ => do
      let tokens ←
        match first, tokens with
        | true, tokens => some tokens
        | false, .flowEntry :: rest => some rest
        | false, _ => none
      match tokens with
      | .flowSequenceEnd :: rest => some (acc.reverse, anchors, rest)
      | .key :: rest =>
        let (key, anchors, rest) ←
          if endsFlowKey .flowSequenceEnd rest then some (.empty, anchors, rest.drop 1)
          else nodeOfTokens fuel handles false false anchors rest
        let (value, anchors, rest) ←
          match rest with
          | .value :: rest =>
            if endsFlowValue .flowSequenceEnd rest then some (.empty, anchors, rest)
            else nodeOfTokens fuel handles false false anchors rest
          | _ => some (.empty, anchors, rest)
        flowItems fuel handles false (.mapping none [(key, value)] :: acc) anchors rest
      | _ =>
        let (item, anchors, rest) ← nodeOfTokens fuel handles false false anchors tokens
        flowItems fuel handles false (item :: acc) anchors rest

/-- The remaining entries of a flow mapping. -/
def flowEntries (fuel : Nat) (handles : TagHandles) (first : Bool) (acc : List (Node × Node))
    (anchors : Anchors) (tokens : List Token) :
    Option (List (Node × Node) × Anchors × List Token) :=
  match fuel with
  | 0 => none
  | fuel + 1 =>
    match tokens with
    | .flowMappingEnd :: rest => some (acc.reverse, anchors, rest)
    | _ => do
      let tokens ←
        match first, tokens with
        | true, tokens => some tokens
        | false, .flowEntry :: rest => some rest
        | false, _ => none
      match tokens with
      | .flowMappingEnd :: rest => some (acc.reverse, anchors, rest)
      | .key :: rest =>
        let (key, anchors, rest) ←
          if endsFlowKey .flowMappingEnd rest then some (.empty, anchors, rest)
          else nodeOfTokens fuel handles false false anchors rest
        let (value, anchors, rest) ←
          match rest with
          | .value :: rest =>
            if endsFlowValue .flowMappingEnd rest then some (.empty, anchors, rest)
            else nodeOfTokens fuel handles false false anchors rest
          | _ => some (.empty, anchors, rest)
        flowEntries fuel handles false ((key, value) :: acc) anchors rest
      | _ =>
        let (key, anchors, rest) ← nodeOfTokens fuel handles false false anchors tokens
        flowEntries fuel handles false ((key, .empty) :: acc) anchors rest

end

/-- A text of one document or none: its root and its anchors. -/
structure Stream where
  root : Node
  anchors : Anchors := {}
deriving Inhabited

namespace Stream

/-- The directives in front of a document, checked: at most one version, which must be 1.1
or 1.2, and each tag handle at most once. -/
def directives (version : Bool) (handles : TagHandles) (tokens : List Token) :
    Option (TagHandles × List Token) :=
  match tokens with
  | .versionDirective major minor :: rest =>
    if version || major ≠ 1 || (minor ≠ 1 && minor ≠ 2) then none
    else directives true handles rest
  | .tagDirective handle expansion :: rest =>
    if (handles.lookup handle).isSome then none
    else directives version ((handle, expansion) :: handles) rest
  | _ => some (handles ++ defaultHandles, tokens)

/-- A document that starts with a marker or a directive. -/
def explicit (fuel : Nat) (tokens : List Token) : Option (Stream × List Token) := do
  let (handles, rest) ← directives false [] tokens
  match rest with
  | .documentStart :: rest =>
    let isEmpty :=
      match rest with
      | [] => true
      | .versionDirective _ _ :: _ => true
      | .tagDirective _ _ :: _ => true
      | .documentStart :: _ => true
      | .documentEnd :: _ => true
      | _ => false
    if isEmpty then some ({ root := .empty }, rest)
    else
      let (root, anchors, rest) ← nodeOfTokens fuel handles true false {} rest
      some ({ root, anchors }, rest)
  | _ => none

/-- The only document of the tokens. No token but end markers may follow it. -/
def ofTokens? (tokens : List Token) : Option Stream := do
  let fuel := 4 * tokens.length + 4
  let (stream, rest) ←
    match tokens with
    | [] => some ({ root := .empty }, [])
    | .versionDirective _ _ :: _ => explicit fuel tokens
    | .tagDirective _ _ :: _ => explicit fuel tokens
    | .documentStart :: _ => explicit fuel tokens
    | _ => do
      let (root, anchors, rest) ← nodeOfTokens fuel defaultHandles true false {} tokens
      some ({ root, anchors }, rest)
  if rest.all (· == .documentEnd) then some stream else none

end Stream

end AggQuery.Yaml
