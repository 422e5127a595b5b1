import AggQuery.Proofs.Reading.Collections

/-!
# Expressions read like their documents

The text of a document is read as an expression like the document, as long as its nesting
stays within the budget. The one difference: the payload of a call or an operation may be
an array in a text, and never in a document (`HasArrayPayload`).

## Implementation notes

The induction is on the budget, which every reader passes on smaller. A document that is
read as an expression has no such array payload (`not_hasArrayPayload`), so the difference
matters only from texts to documents.
-/

namespace AggQuery

open Lexeme Document TextReader

variable {α σ : Type}

namespace Literal

/-- The payload of a constant in a text. -/
def payloadOfText (variant : LiteralVariant) (text : List Char) :
    Except ReadError (Literal × List Char) :=
  match variant with
  | .string => (TextReader.string "a string" text).map fun (s, rest) => (.string s, rest)
  | .integer => (TextReader.integer text).map fun (n, rest) => (.integer n, rest)
  | .float => (TextReader.float text).map fun (x, rest) => (.float x, rest)
  | .boolean => (TextReader.boolean text).map fun (b, rest) => (.boolean b, rest)
  | .duration => (TextReader.string "a string" text).map fun (s, rest) => (.duration s, rest)
  | .null => (unit text).map fun (_, rest) => (.null, rest)

/-- The payload of a constant in a document. -/
def payloadOfDocument (variant : LiteralVariant) (payload : Document) :
    Except ShapeError Literal :=
  match variant with
  | .string => .string <$> payload.toText
  | .integer => .integer <$> payload.toInteger
  | .float => .float <$> payload.toFloat
  | .boolean => .boolean <$> payload.toBoolean
  | .duration => .duration <$> payload.toText
  | .null => (fun _ => .null) <$> payload.toUnit

theorem ofDocument_eq (document : Document) :
    ofDocument document =
      variantOfDocument (fun name => do (← LiteralVariant.ofName name).withoutPayload)
        LiteralVariant.ofName payloadOfDocument document := by
  match document with
  | .string name => rfl
  | .object [] | .object (_ :: _ :: _) => rfl
  | .object [(name, payload)] =>
      cases hname : LiteralVariant.ofName name with
      | error e =>
          simp [ofDocument, Document.toVariant, variantOfDocument, variantOfFields, hname, bind,
            Except.bind]
      | ok variant =>
          cases variant <;> simp [ofDocument, Document.toVariant, variantOfDocument,
            variantOfFields, hname, bind, Except.bind, payloadOfDocument]
          rfl
  | .null | .boolean _ | .number _ | .array _ => rfl

theorem readsLike_payload {payload : Document} (h : payload.Legible NumberReads)
    (variant : LiteralVariant) :
    ReadsLike (payloadOfText variant) payload (payloadOfDocument variant payload) := by
  intro rest hrest
  cases variant with
  | string => exact (readsLike_string h "a string" rest hrest).map Literal.string
  | integer => exact (readsLike_integer h rest hrest).map Literal.integer
  | float => exact (readsLike_float h rest hrest).map Literal.float
  | boolean => exact (readsLike_boolean h rest hrest).map Literal.boolean
  | duration => exact (readsLike_string h "a string" rest hrest).map Literal.duration
  | null => exact (readsLike_unit h rest hrest).map fun _ => Literal.null

theorem readsLike_ofText {document : Document} (hlegible : document.Legible NumberReads)
    {budget : Nat} (hdepth : document.depth ≤ budget) :
    ReadsLike (ofText budget) document (ofDocument document) := by
  rw [ofDocument_eq]
  apply readsLike_variant hlegible payloadOfText
  · intro text e h
    rw [ofText, h]
    rfl
  · intro text name rest h
    rw [ofText, h]
    rfl
  · rintro fields text rest rfl h
    rw [ofText, h]
    change (if budget = 0 then malformed else _) = _
    rw [if_neg (budget_ne_zero hdepth)]
    rfl
  · rintro fields name payload variant rfl hmem -
    exact readsLike_payload (hlegible.of_mem hmem) variant

end Literal

section Keys

variable {key : String}

theorem CallKey.eq_args (h : ofKey? key = some .args) : key = "args" := by
  unfold ofKey? at h
  split at h <;> simp_all

theorem BinaryKey.eq_lhs (h : ofKey? key = some .lhs) : key = "lhs" := by
  unfold ofKey? at h
  split at h <;> simp_all

theorem BinaryKey.eq_rhs (h : ofKey? key = some .rhs) : key = "rhs" := by
  unfold ofKey? at h
  split at h <;> simp_all

theorem UnaryKey.eq_expr (h : ofKey? key = some .expr) : key = "expr" := by
  unfold ofKey? at h
  split at h <;> simp_all

theorem ExprVariant.eq_name {variant : ExprVariant} (h : ofName key = .ok variant) :
    key = variant.name := by
  unfold ofName at h
  split at h
  · next found heq =>
      obtain rfl := Except.ok.inj h
      exact (by simpa using List.find?_some heq : found.name = key).symm
  · cases h

end Keys

namespace Expr

/-- Somewhere in a document that is read as an expression, the payload of a call or of an
operation is an array. -/
inductive HasArrayPayload : Document → Prop
  | here {fields : Fields} {name : String} {items : List Document}
      (hname : name ∈ ["call", "binary", "unary"]) (hmem : (name, .array items) ∈ fields) :
      HasArrayPayload (.object fields)
  | argument {fields payload : Fields} {items : List Document} {item : Document}
      (hnode : ("call", .object payload) ∈ fields) (hargs : ("args", .array items) ∈ payload)
      (hmem : item ∈ items) (h : HasArrayPayload item) : HasArrayPayload (.object fields)
  | operand {fields payload : Fields} {name key : String} {operand : Document}
      (hname : (name, key) ∈ [("binary", "lhs"), ("binary", "rhs"), ("unary", "expr")])
      (hnode : (name, .object payload) ∈ fields) (hmem : (key, operand) ∈ payload)
      (h : HasArrayPayload operand) : HasArrayPayload (.object fields)
  | paren {fields : Fields} {inner : Document} (hnode : ("paren", inner) ∈ fields)
      (h : HasArrayPayload inner) : HasArrayPayload (.object fields)

section Steps

/-- Taking one field of a call. -/
def takeCall (slots : CallSlots) (entry : String × Document) : Except ShapeError CallSlots :=
  match CallKey.ofKey? entry.1 with
  | none => .ok slots
  | some .name => takeMember slots.name.isSome "name" entry.2.toText fun name =>
      { slots with name := some name }
  | some .args => takeMember slots.args.isSome "args" (listOfDocument entry.2) fun args =>
      { slots with args := some args }

/-- Taking one field of an operation with two operands. -/
def takeBinary (slots : BinarySlots) (entry : String × Document) :
    Except ShapeError BinarySlots :=
  match BinaryKey.ofKey? entry.1 with
  | none => .ok slots
  | some .op => takeMember slots.op.isSome "op" (BinaryOp.ofDocument entry.2) fun op =>
      { slots with op := some op }
  | some .lhs => takeMember slots.lhs.isSome "lhs" (ofDocument entry.2) fun lhs =>
      { slots with lhs := some lhs }
  | some .rhs => takeMember slots.rhs.isSome "rhs" (ofDocument entry.2) fun rhs =>
      { slots with rhs := some rhs }

/-- Taking one field of an operation with one operand. -/
def takeUnary (slots : UnarySlots) (entry : String × Document) : Except ShapeError UnarySlots :=
  match UnaryKey.ofKey? entry.1 with
  | none => .ok slots
  | some .op => takeMember slots.op.isSome "op" (UnaryOp.ofDocument entry.2) fun op =>
      { slots with op := some op }
  | some .expr => takeMember slots.expr.isSome "expr" (ofDocument entry.2) fun expr =>
      { slots with expr := some expr }

theorem listOfDocument_eq (document : Document) :
    listOfDocument document = listOf ofDocument document := by
  have hitems (items : List Document) : ofItems items = items.mapM ofDocument := by
    induction items with
    | nil => rfl
    | cons item items ih =>
        rw [ofItems, List.mapM_cons, ih]
        rfl
  rw [listOfDocument.eq_def]
  cases document with
  | array items => exact hitems items
  | _ => rfl

theorem callOfFields_eq (slots : CallSlots) (fields : Fields) :
    callOfFields slots fields = fields.foldlM takeCall slots := by
  induction fields generalizing slots with
  | nil => rfl
  | cons entry fields ih =>
      obtain ⟨key, value⟩ := entry
      rw [callOfFields, List.foldlM_cons, takeCall]
      cases CallKey.ofKey? key with
      | none => exact ih slots
      | some field =>
          cases field with
          | name => exact takeMember_bind fun _ => ih _
          | args => exact takeMember_bind fun _ => ih _

theorem binaryOfFields_eq (slots : BinarySlots) (fields : Fields) :
    binaryOfFields slots fields = fields.foldlM takeBinary slots := by
  induction fields generalizing slots with
  | nil => rfl
  | cons entry fields ih =>
      obtain ⟨key, value⟩ := entry
      rw [binaryOfFields, List.foldlM_cons, takeBinary]
      cases BinaryKey.ofKey? key with
      | none => exact ih slots
      | some field =>
          cases field with
          | op => exact takeMember_bind fun _ => ih _
          | lhs => exact takeMember_bind fun _ => ih _
          | rhs => exact takeMember_bind fun _ => ih _

theorem unaryOfFields_eq (slots : UnarySlots) (fields : Fields) :
    unaryOfFields slots fields = fields.foldlM takeUnary slots := by
  induction fields generalizing slots with
  | nil => rfl
  | cons entry fields ih =>
      obtain ⟨key, value⟩ := entry
      rw [unaryOfFields, List.foldlM_cons, takeUnary]
      cases UnaryKey.ofKey? key with
      | none => exact ih slots
      | some field =>
          cases field with
          | op => exact takeMember_bind fun _ => ih _
          | expr => exact takeMember_bind fun _ => ih _

end Steps

section Payloads

/-- A payload with named fields in a document, which must be an object. -/
def structOfDocument (initial : σ) (take : σ → String × Document → Except ShapeError σ)
    (finish : σ → Except ShapeError Expr) (payload : Document) : Except ShapeError Expr :=
  match payload with
  | .object fields => do finish (← fields.foldlM take initial)
  | d => .error (.invalidType d.found "struct variant")

theorem callOfDocument_eq (payload : Document) :
    callOfDocument payload = structOfDocument {} takeCall CallSlots.finish payload := by
  rw [callOfDocument.eq_def]
  cases payload with
  | object fields => exact congrArg (· >>= CallSlots.finish) (callOfFields_eq {} fields)
  | _ => rfl

theorem binaryOfDocument_eq (payload : Document) :
    binaryOfDocument payload = structOfDocument {} takeBinary BinarySlots.finish payload := by
  rw [binaryOfDocument.eq_def]
  cases payload with
  | object fields => exact congrArg (· >>= BinarySlots.finish) (binaryOfFields_eq {} fields)
  | _ => rfl

theorem unaryOfDocument_eq (payload : Document) :
    unaryOfDocument payload = structOfDocument {} takeUnary UnarySlots.finish payload := by
  rw [unaryOfDocument.eq_def]
  cases payload with
  | object fields => exact congrArg (· >>= UnarySlots.finish) (unaryOfFields_eq {} fields)
  | _ => rfl

/-- A reader of payloads with named fields agrees where the readers of its fields do. -/
theorem readsLike_struct {payload : Document} (hlegible : payload.Legible NumberReads)
    (harray : ∀ items, payload ≠ .array items) {initial : σ}
    {take : σ → String × Document → Except ShapeError σ} {finish : σ → Except ShapeError Expr}
    {reader : List Char → Except ReadError (Expr × List Char)}
    (hobject : ∀ fields, payload = .object fields → ∃ field,
      (∀ text, reader ('\x7b' :: text) =
        finishWith finish (members field (text.length + 1) true initial text)) ∧
      FieldsAgree field take fields)
    (hother : ∀ c text, isBlank c = false → c ≠ '\x7b' → c ≠ '[' →
      ∃ e, reader (c :: text) = .error e) :
    ReadsLike reader payload (structOfDocument initial take finish payload) := by
  refine readsLike_brackets hlegible ?_ ?_ ?_ hother
  · rintro fields rfl rest
    exact agrees_completed (hobject fields rfl) rest
  · intro items heq
    exact absurd heq (harray items)
  · intro hscalar
    cases payload with
    | object fields => cases hscalar
    | _ => exact ⟨_, rfl⟩

/-- The payload of an expression in a text. -/
def payloadOfText (budget : Nat) (variant : ExprVariant) (text : List Char) :
    Except ReadError (Expr × List Char) :=
  match variant with
  | .field => (TextReader.string "a string" text).map fun (s, rest) => (.field s, rest)
  | .literal => (Literal.ofText budget text).map fun (l, rest) => (.literal l, rest)
  | .call => callOfText budget text
  | .binary => binaryOfText budget text
  | .unary => unaryOfText budget text
  | .paren => (ofText budget text).map fun (e, rest) => (.paren e, rest)
  | .wildcard => (unit text).map fun (_, rest) => (.wildcard, rest)

/-- The payload of an expression in a document. -/
def payloadOfDocument (variant : ExprVariant) (payload : Document) : Except ShapeError Expr :=
  match variant with
  | .field => .field <$> payload.toText
  | .literal => .literal <$> Literal.ofDocument payload
  | .call => callOfDocument payload
  | .binary => binaryOfDocument payload
  | .unary => unaryOfDocument payload
  | .paren => .paren <$> ofDocument payload
  | .wildcard => (fun _ => .wildcard) <$> payload.toUnit

theorem ofDocument_eq (document : Document) :
    ofDocument document =
      variantOfDocument (fun name => do (← ExprVariant.ofName name).withoutPayload)
        ExprVariant.ofName payloadOfDocument document := by
  match document with
  | .string name => rw [ofDocument.eq_def]; rfl
  | .object [] | .object (_ :: _ :: _) => rw [ofDocument.eq_def]; rfl
  | .object [(name, payload)] =>
      rw [ofDocument, variantOfDocument, variantOfFields]
      cases hname : ExprVariant.ofName name with
      | error e => rfl
      | ok variant => cases variant <;> rfl
  | .null | .boolean _ | .number _ | .array _ => rw [ofDocument.eq_def]; rfl

end Payloads

/-- Documents of at most this depth are read alike as expressions, if none of their payloads
is an array. -/
def ReadAlike (budget : Nat) : Prop :=
  ∀ document : Document, document.Legible NumberReads → document.depth ≤ budget →
    ¬HasArrayPayload document → ReadsLike (ofText budget) document (ofDocument document)

section Nodes

variable {budget : Nat} (hbudget : ∀ less < budget, ReadAlike less)

include hbudget

theorem readsLike_list {document : Document} (hlegible : document.Legible NumberReads)
    (hdepth : document.depth ≤ budget)
    (hitems : ∀ items, document = .array items → ∀ item ∈ items, ¬HasArrayPayload item) :
    ReadsLike (listOfText budget) document (listOfDocument document) := by
  rw [listOfDocument_eq]
  apply readsLike_listOf hlegible
  · rintro items rfl
    obtain ⟨less, rfl⟩ := Nat.exists_eq_succ_of_ne_zero (budget_ne_zero_of_array hdepth)
    refine ⟨ofText less, ?_, ?_⟩
    · intro text
      rw [listOfText, skipBlanks_cons (by decide)]
      rfl
    · intro item hmem
      have hless := depth_lt_of_mem_items hmem
      exact hbudget less (by omega) item (hlegible.of_mem_items item hmem) (by omega)
        (hitems items rfl item hmem)
  · intro c text hblank harray
    simp [listOfText, skipBlanks_cons hblank, harray]

variable {fields : Fields} {payload : Document} (hlegible : payload.Legible NumberReads)
  (hdepth : payload.depth ≤ budget) (hnone : ¬HasArrayPayload (.object fields))

include hlegible hdepth hnone

theorem readsLike_call (hnode : ("call", payload) ∈ fields) :
    ReadsLike (callOfText budget) payload (callOfDocument payload) := by
  rw [callOfDocument_eq]
  apply readsLike_struct hlegible
  · rintro items rfl
    exact hnone (.here (by decide) hnode)
  · rintro given rfl
    obtain ⟨less, rfl⟩ := Nat.exists_eq_succ_of_ne_zero (budget_ne_zero hdepth)
    constructor
    constructor
    · intro rest
      rw [callOfText, skipBlanks_cons (by decide)]
      rfl
    rintro ⟨key, value⟩ hmem slots rest hrest
    have hvalue := hlegible.of_mem hmem
    have hless := depth_lt_of_mem_fields hmem
    rw [takeCall]
    dsimp only
    cases hkey : CallKey.ofKey? key with
    | none => exact agrees_ignored hvalue slots hrest
    | some field =>
        cases field with
        | name => exact agrees_member (readsLike_string hvalue _) _ _ _ hrest
        | args =>
            obtain rfl := CallKey.eq_args hkey
            refine agrees_member (readsLike_list ?_ hvalue (by omega) ?_) _ _ _ hrest
            · exact fun few hfew => hbudget few (by omega)
            · rintro items rfl item hitem h
              exact hnone (.argument hnode hmem hitem h)
  · intro c text hblank hobject harray
    simp [callOfText, skipBlanks_cons hblank, harray, hobject]

theorem readsLike_binary (hnode : ("binary", payload) ∈ fields) :
    ReadsLike (binaryOfText budget) payload (binaryOfDocument payload) := by
  rw [binaryOfDocument_eq]
  apply readsLike_struct hlegible
  · rintro items rfl
    exact hnone (.here (by decide) hnode)
  · rintro given rfl
    obtain ⟨less, rfl⟩ := Nat.exists_eq_succ_of_ne_zero (budget_ne_zero hdepth)
    constructor
    constructor
    · intro rest
      rw [binaryOfText, skipBlanks_cons (by decide)]
      rfl
    rintro ⟨key, value⟩ hmem slots rest hrest
    have hvalue := hlegible.of_mem hmem
    have hless := depth_lt_of_mem_fields hmem
    rw [takeBinary]
    dsimp only
    cases hkey : BinaryKey.ofKey? key with
    | none => exact agrees_ignored hvalue slots hrest
    | some field =>
        cases field with
        | op => exact agrees_member (readsLike_operator _ hvalue (by omega)) _ _ _ hrest
        | lhs =>
            obtain rfl := BinaryKey.eq_lhs hkey
            refine agrees_member (hbudget less (by omega) _ hvalue (by omega) ?_) _ _ _ hrest
            exact fun h => hnone (.operand (by decide) hnode hmem h)
        | rhs =>
            obtain rfl := BinaryKey.eq_rhs hkey
            refine agrees_member (hbudget less (by omega) _ hvalue (by omega) ?_) _ _ _ hrest
            exact fun h => hnone (.operand (by decide) hnode hmem h)
  · intro c text hblank hobject harray
    simp [binaryOfText, skipBlanks_cons hblank, harray, hobject]

theorem readsLike_unary (hnode : ("unary", payload) ∈ fields) :
    ReadsLike (unaryOfText budget) payload (unaryOfDocument payload) := by
  rw [unaryOfDocument_eq]
  apply readsLike_struct hlegible
  · rintro items rfl
    exact hnone (.here (by decide) hnode)
  · rintro given rfl
    obtain ⟨less, rfl⟩ := Nat.exists_eq_succ_of_ne_zero (budget_ne_zero hdepth)
    constructor
    constructor
    · intro rest
      rw [unaryOfText, skipBlanks_cons (by decide)]
      rfl
    rintro ⟨key, value⟩ hmem slots rest hrest
    have hvalue := hlegible.of_mem hmem
    have hless := depth_lt_of_mem_fields hmem
    rw [takeUnary]
    dsimp only
    cases hkey : UnaryKey.ofKey? key with
    | none => exact agrees_ignored hvalue slots hrest
    | some field =>
        cases field with
        | op => exact agrees_member (readsLike_operator _ hvalue (by omega)) _ _ _ hrest
        | expr =>
            obtain rfl := UnaryKey.eq_expr hkey
            refine agrees_member (hbudget less (by omega) _ hvalue (by omega) ?_) _ _ _ hrest
            exact fun h => hnone (.operand (by decide) hnode hmem h)
  · intro c text hblank hobject harray
    simp [unaryOfText, skipBlanks_cons hblank, harray, hobject]

end Nodes

/-- A document is read alike from its text as an expression. -/
theorem readsLike_ofText (budget : Nat) : ReadAlike budget := by
  induction budget using Nat.strongRecOn with
  | ind budget ih =>
      intro document hlegible hdepth hnone
      rw [ofDocument_eq]
      apply readsLike_variant hlegible (payloadOfText (budget - 1))
      · intro text e h
        rw [ofText, h]
      · intro text name rest h
        rw [ofText, h]
        dsimp only
        cases ExprVariant.ofName name >>= ExprVariant.withoutPayload <;> rfl
      · rintro fields text rest rfl h
        obtain ⟨less, rfl⟩ := Nat.exists_eq_succ_of_ne_zero (budget_ne_zero hdepth)
        rw [ofText, h]
        dsimp only
        cases variantKey ExprVariant.ofName rest with
        | error e => rfl
        | ok found => cases found.1 <;> rfl
      · rintro fields name payload variant rfl hmem hname
        have hvalue := hlegible.of_mem hmem
        have hless := depth_lt_of_mem_fields hmem
        have hbefore : ∀ less < budget - 1, ReadAlike less := fun less h => ih less (by omega)
        obtain rfl := ExprVariant.eq_name hname
        intro rest hrest
        cases variant with
        | field => exact (readsLike_string hvalue "a string" rest hrest).map Expr.field
        | literal => exact (Literal.readsLike_ofText hvalue (by omega) rest hrest).map Expr.literal
        | call => exact readsLike_call hbefore hvalue (by omega) hnone hmem rest hrest
        | binary => exact readsLike_binary hbefore hvalue (by omega) hnone hmem rest hrest
        | unary => exact readsLike_unary hbefore hvalue (by omega) hnone hmem rest hrest
        | paren =>
            have hinner : ¬HasArrayPayload payload := fun h => hnone (.paren hmem h)
            exact (ih (budget - 1) (by omega) payload hvalue (by omega) hinner rest hrest).map
              Expr.paren
        | wildcard => exact (readsLike_unit hvalue rest hrest).map fun _ => Expr.wildcard

section Refusal

/-- An object that is read as an expression holds its payload in its only field. -/
theorem payload_eq_ok {fields : Fields} {e : Expr} (h : ofDocument (.object fields) = .ok e)
    {name : String} {payload : Document} (hmem : (name, payload) ∈ fields)
    (variant : ExprVariant) (hname : ExprVariant.ofName name = .ok variant) :
    payloadOfDocument variant payload = .ok e := by
  rw [ofDocument_eq, variantOfDocument] at h
  cases fields with
  | nil => cases h
  | cons entry fields =>
      cases fields with
      | nil =>
          obtain rfl := List.mem_singleton.mp hmem
          rw [variantOfFields, hname] at h
          exact h
      | cons next fields => cases h

/-- Where a payload is read, the value of each field that it knows is. -/
theorem field_eq_ok {initial : σ} {take : σ → String × Document → Except ShapeError σ}
    {finish : σ → Except ShapeError Expr} {fields : Fields} {e : Expr}
    (h : structOfDocument initial take finish (.object fields) = .ok e)
    {entry : String × Document} (hmem : entry ∈ fields) {value : Except ShapeError α}
    (htake : ∀ slots, ∃ given name put, take slots entry = takeMember given name value put) :
    ∃ x, value = .ok x := by
  obtain ⟨slots, hslots, -⟩ := exists_of_bind_eq_ok h
  obtain ⟨before, after, hafter⟩ := exists_of_foldlM_eq_ok hslots hmem
  obtain ⟨given, name, put, heq⟩ := htake before
  rw [heq] at hafter
  exact exists_of_takeMember_eq_ok hafter

/-- No document that is read as an expression has an array for the payload of a call or an
operation. -/
theorem not_hasArrayPayload {document : Document} {e : Expr} (h : ofDocument document = .ok e) :
    ¬HasArrayPayload document := by
  intro harray
  induction harray generalizing e with
  | here hname hmem =>
      simp only [List.mem_cons, List.not_mem_nil, or_false] at hname
      rcases hname with rfl | rfl | rfl
      · have hpayload := payload_eq_ok h hmem .call rfl
        cases hpayload
      · have hpayload := payload_eq_ok h hmem .binary rfl
        cases hpayload
      · have hpayload := payload_eq_ok h hmem .unary rfl
        cases hpayload
  | argument hnode hargs hmem _ ih =>
      have hpayload := payload_eq_ok h hnode .call rfl
      rw [payloadOfDocument, callOfDocument_eq] at hpayload
      obtain ⟨args, hlist⟩ := field_eq_ok hpayload hargs fun _ => ⟨_, _, _, rfl⟩
      rw [listOfDocument_eq] at hlist
      obtain ⟨arg, harg⟩ := exists_of_mapM_eq_ok hlist hmem
      exact ih harg
  | operand hname hnode hmem _ ih =>
      simp only [List.mem_cons, Prod.mk.injEq, List.not_mem_nil, or_false] at hname
      rcases hname with ⟨rfl, rfl⟩ | ⟨rfl, rfl⟩ | ⟨rfl, rfl⟩
      · have hpayload := payload_eq_ok h hnode .binary rfl
        rw [payloadOfDocument, binaryOfDocument_eq] at hpayload
        obtain ⟨lhs, hlhs⟩ := field_eq_ok hpayload hmem fun _ => ⟨_, _, _, rfl⟩
        exact ih hlhs
      · have hpayload := payload_eq_ok h hnode .binary rfl
        rw [payloadOfDocument, binaryOfDocument_eq] at hpayload
        obtain ⟨rhs, hrhs⟩ := field_eq_ok hpayload hmem fun _ => ⟨_, _, _, rfl⟩
        exact ih hrhs
      · have hpayload := payload_eq_ok h hnode .unary rfl
        rw [payloadOfDocument, unaryOfDocument_eq] at hpayload
        obtain ⟨operand, hoperand⟩ := field_eq_ok hpayload hmem fun _ => ⟨_, _, _, rfl⟩
        exact ih hoperand
  | paren hnode _ ih =>
      have hpayload := payload_eq_ok h hnode .paren rfl
      obtain ⟨inner, hinner⟩ := exists_of_map_eq_ok hpayload
      exact ih hinner

end Refusal

end Expr

end AggQuery
