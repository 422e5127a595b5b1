import AggQuery.Proofs.Reading.Respected

/-!
# Queries are read without repetitions

Each reader of a part of a query respects outlines, from literals and operators to the query
itself. So a JSON text that is read as a query is a value in which no object, at any depth, gives
a field twice (`Query.ofText_eq_ok`).

## Implementation notes

The readers of expressions call each other, each time with one bracket less that may be opened,
so `Expr.respects_ofText` is an induction on that number, and the lemmas on payloads assume it
for all smaller numbers. The objects are read by `ObjectReader.takeText` with the values listed
for their fields, and their array form element by element.
-/

namespace AggQuery

open Lexeme TextReader Outline

variable {α : Type} {text inside rest after : List Char} {budget : Nat}

section Constants

theorem Literal.respects_payloadOfText (variant : LiteralVariant) :
    Respects .scalar (payloadOfText variant) := by
  cases variant with
  | string => exact (respects_string _).map Literal.string
  | integer => exact (respects_number _ _).map Literal.integer
  | float => exact (respects_number _ _).map Literal.float
  | boolean => exact respects_boolean.map Literal.boolean
  | duration => exact (respects_string _).map Literal.duration
  | null => exact respects_unit.map fun _ => Literal.null

/-- Variants with scalar payloads, given by a name alone or by an object with a payload. -/
theorem respects_scalarVariant {ν : Type} {ofName : String → Except ShapeError ν}
    {named : String → Except ShapeError α}
    {read : ν → List Char → Except ReadError (α × List Char)}
    (hread : ∀ variant, Respects .scalar (read variant)) (budget : Nat) :
    Respects .scalar (fun text => do
      match ← variantStart text with
      | (some name, rest) => .ok (← shaped (named name), rest)
      | (none, rest) =>
        if budget = 0 then malformed
        else
          let (variant, rest) ← variantKey ofName rest
          closed (read variant rest)) := by
  refine respects_variant ofName (fun _ => .scalar) (fun {text x after} h => ?_)
    (not_repeats_scalar _) fun _ _ => not_repeats_scalar _
  obtain ⟨⟨name, inside⟩, hstart, h⟩ := exists_of_bind_eq_ok h
  cases name with
  | some name =>
      obtain ⟨_, -, hrest⟩ := exists_of_bind_eq_ok h
      obtain rfl : inside = after := congrArg Prod.snd (Except.ok.inj hrest)
      exact .inl ⟨name, hstart⟩
  | none =>
      dsimp only at h
      split at h
      · cases h
      · exact .inr ⟨inside, read, hstart, hread, h⟩

theorem Literal.respects_ofText (budget : Nat) : Respects .scalar (ofText budget) :=
  respects_scalarVariant respects_payloadOfText budget

theorem respects_operatorOfText (ofName : String → Except ShapeError α) (budget : Nat) :
    Respects .scalar (operatorOfText ofName budget) :=
  respects_scalarVariant (fun op => respects_unit.map fun _ => op) budget

end Constants

/-- What the payload of a variant of an expression is read as. -/
def ExprVariant.payloadRole : ExprVariant → Role
  | .call => .object .call
  | .binary => .object .binary
  | .unary => .object .unary
  | .paren => .expr
  | .field | .literal | .wildcard => .scalar

/-- An expression repeats no field if its payload does not. -/
theorem not_repeats_expr {name : String} {variant : ExprVariant} {value : Outline}
    (hname : ExprVariant.ofName name = .ok variant) (h : ¬value.Repeats variant.payloadRole) :
    ¬(Outline.object [(some name, value)]).Repeats .expr := by
  obtain rfl := ExprVariant.eq_name hname
  intro hrepeats
  cases hrepeats with
  | payload hvariant hmem hpayload =>
      obtain ⟨hkey, rfl⟩ := Prod.mk.inj (List.mem_singleton.mp hmem)
      obtain rfl := Option.some.inj hkey
      cases variant <;> simp [ObjectRole.variants, ExprVariant.name] at hvariant <;>
        (subst hvariant; exact h hpayload)
  | paren hmem hparen =>
      obtain ⟨hkey, rfl⟩ := Prod.mk.inj (List.mem_singleton.mp hmem)
      cases variant <;> simp [ExprVariant.name] at hkey
      exact h hparen

namespace Expr

section Nodes

variable {budget : Nat} (hbudget : ∀ less < budget, Respects .expr (ofText less))

include hbudget

theorem respects_listOfText : Respects (.list .expr) (listOfText budget) := by
  apply respects_list
  intro text xs after h
  rw [listOfText.eq_def] at h
  split at h
  · cases h
  · next inside htext =>
      cases budget with
      | zero => cases h
      | succ budget => exact ⟨inside, _, _, htext, hbudget budget (Nat.lt_succ_self _), h⟩
  · cases h

end Nodes

theorem finishWith_eq_ok {σ : Type} {finish : σ → Except ShapeError Expr}
    {result : Except ReadError (σ × List Char)} {e : Expr}
    (h : finishWith finish result = .ok (e, after)) : ∃ slots, result = .ok (slots, after) := by
  obtain ⟨⟨slots, behind⟩, hresult, hfinish⟩ := exists_of_bind_eq_ok h
  obtain ⟨_, -, hrest⟩ := exists_of_bind_eq_ok hfinish
  obtain rfl : behind = after := congrArg Prod.snd (Except.ok.inj hrest)
  exact ⟨slots, hresult⟩

/-- The values of the fields of a call. -/
def callValue (budget : Nat) :
    (field : CallKey) → List Char → Except ReadError (callReader.Value field × List Char)
  | .name => TextReader.string "a string"
  | .args => listOfText budget

/-- The values of the fields of an operation with two operands. -/
def binaryValue (budget : Nat) :
    (field : BinaryKey) → List Char → Except ReadError (binaryReader.Value field × List Char)
  | .op => operatorOfText BinaryOp.ofName budget
  | .lhs | .rhs => ofText budget

/-- The values of the fields of an operation with one operand. -/
def unaryValue (budget : Nat) :
    (field : UnaryKey) → List Char → Except ReadError (unaryReader.Value field × List Char)
  | .op => operatorOfText UnaryOp.ofName budget
  | .expr => ofText budget

/-- Where no bracket may be opened, no payload with fields can be read. -/
theorem payloadOfText_zero {variant : ExprVariant}
    (hvariant : variant ∈ [.call, .binary, .unary]) {e : Expr} :
    payloadOfText 0 variant text ≠ .ok (e, after) := by
  intro h
  cases variant with
  | call =>
      rw [payloadOfText, callOfText.eq_def] at h
      split at h <;> cases h
  | binary =>
      rw [payloadOfText, binaryOfText.eq_def] at h
      split at h <;> cases h
  | unary =>
      rw [payloadOfText, unaryOfText.eq_def] at h
      split at h <;> cases h
  | _ => simp at hvariant

section Payloads

variable {budget : Nat} (hbudget : ∀ less ≤ budget, Respects .expr (ofText less))

include hbudget

theorem respects_callValue (field : CallKey) :
    Respects field.schema.role (callValue budget field) := by
  cases field with
  | name => exact respects_string _
  | args => exact respects_listOfText fun less h => hbudget less (Nat.le_of_lt h)

theorem respects_binaryValue (field : BinaryKey) :
    Respects field.schema.role (binaryValue budget field) := by
  cases field with
  | op => exact respects_operatorOfText _ _
  | lhs | rhs => exact hbudget budget (Nat.le_refl _)

theorem respects_unaryValue (field : UnaryKey) :
    Respects field.schema.role (unaryValue budget field) := by
  cases field with
  | op => exact respects_operatorOfText _ _
  | expr => exact hbudget budget (Nat.le_refl _)

theorem respects_callOfText : Respects (.object .call) (callOfText (budget + 1)) := by
  apply respects_object
  intro text x after h
  rw [callOfText.eq_def] at h
  split at h
  · cases h
  · next inside htext =>
      obtain ⟨slots, hmembers⟩ := finishWith_eq_ok h
      refine .inl ⟨inside, htext, object_eq_ok callReader_follows (callValue budget)
        (respects_callValue hbudget) hmembers fun slots key text => ?_⟩
      have hfield : callReader.field? key = CallKey.ofKey? key := rfl
      rw [ObjectReader.takeText, hfield]
      cases CallKey.ofKey? key with
      | none => rfl
      | some field => cases field <;> rfl
  · next inside htext =>
      obtain ⟨⟨name, behind⟩, hname, h⟩ := exists_of_bind_eq_ok h
      obtain ⟨item, hone, hitem⟩ := nextOf_eq_ok (respects_callValue hbudget .name) hname
      obtain ⟨next, hnext, h⟩ := exists_of_bind_eq_ok h
      cases next with
      | none =>
          refine .inr ⟨inside, htext, [item], hitem (finished_eq_ok h), not_repeats_array ?_⟩
          simpa [ObjectRole.schema, CallKey.schema] using hone
      | some start =>
          obtain ⟨⟨args, behind'⟩, hargs, h⟩ := exists_of_bind_eq_ok h
          obtain ⟨list, hmany, hlist⟩ :=
            foundElement_eq_ok (respects_callValue hbudget .args) hnext hargs
          refine .inr ⟨inside, htext, [item, list], hitem (hlist (finished_eq_ok h)),
            not_repeats_array ?_⟩
          simpa [ObjectRole.schema, CallKey.schema] using ⟨hone, hmany⟩
  · cases h

theorem respects_binaryOfText : Respects (.object .binary) (binaryOfText (budget + 1)) := by
  apply respects_object
  intro text x after h
  rw [binaryOfText.eq_def] at h
  split at h
  · cases h
  · next inside htext =>
      obtain ⟨slots, hmembers⟩ := finishWith_eq_ok h
      refine .inl ⟨inside, htext, object_eq_ok binaryReader_follows (binaryValue budget)
        (respects_binaryValue hbudget) hmembers fun slots key text => ?_⟩
      have hfield : binaryReader.field? key = BinaryKey.ofKey? key := rfl
      rw [ObjectReader.takeText, hfield]
      cases BinaryKey.ofKey? key with
      | none => rfl
      | some field => cases field <;> rfl
  · next inside htext =>
      obtain ⟨⟨op, behind⟩, hop, h⟩ := exists_of_bind_eq_ok h
      obtain ⟨first, hfirst, hspell⟩ := nextOf_eq_ok (respects_binaryValue hbudget .op) hop
      obtain ⟨⟨lhs, behind⟩, hlhs, h⟩ := exists_of_bind_eq_ok h
      obtain ⟨second, hsecond, hspell'⟩ := nextOf_eq_ok (respects_binaryValue hbudget .lhs) hlhs
      obtain ⟨⟨rhs, behind⟩, hrhs, h⟩ := exists_of_bind_eq_ok h
      obtain ⟨third, hthird, hspell''⟩ := nextOf_eq_ok (respects_binaryValue hbudget .rhs) hrhs
      refine .inr ⟨inside, htext, [first, second, third],
        hspell (hspell' (hspell'' (finished_eq_ok h))), not_repeats_array ?_⟩
      simpa [ObjectRole.schema, BinaryKey.schema] using ⟨hfirst, hsecond, hthird⟩
  · cases h

theorem respects_unaryOfText : Respects (.object .unary) (unaryOfText (budget + 1)) := by
  apply respects_object
  intro text x after h
  rw [unaryOfText.eq_def] at h
  split at h
  · cases h
  · next inside htext =>
      obtain ⟨slots, hmembers⟩ := finishWith_eq_ok h
      refine .inl ⟨inside, htext, object_eq_ok unaryReader_follows (unaryValue budget)
        (respects_unaryValue hbudget) hmembers fun slots key text => ?_⟩
      have hfield : unaryReader.field? key = UnaryKey.ofKey? key := rfl
      rw [ObjectReader.takeText, hfield]
      cases UnaryKey.ofKey? key with
      | none => rfl
      | some field => cases field <;> rfl
  · next inside htext =>
      obtain ⟨⟨op, behind⟩, hop, h⟩ := exists_of_bind_eq_ok h
      obtain ⟨first, hfirst, hspell⟩ := nextOf_eq_ok (respects_unaryValue hbudget .op) hop
      obtain ⟨⟨operand, behind⟩, hoperand, h⟩ := exists_of_bind_eq_ok h
      obtain ⟨second, hsecond, hspell'⟩ :=
        nextOf_eq_ok (respects_unaryValue hbudget .expr) hoperand
      refine .inr ⟨inside, htext, [first, second], hspell (hspell' (finished_eq_ok h)),
        not_repeats_array ?_⟩
      simpa [ObjectRole.schema, UnaryKey.schema] using ⟨hfirst, hsecond⟩
  · cases h

/-- Each payload is read without repetitions, as long as expressions within it are. -/
theorem respects_payloadOfText (variant : ExprVariant) :
    Respects variant.payloadRole (payloadOfText budget variant) := by
  have hless : ∀ {less}, budget = less + 1 → ∀ few ≤ less, Respects .expr (ofText few) :=
    fun heq few h => hbudget few (by omega)
  cases variant with
  | field => exact (respects_string _).map Expr.field
  | literal => exact (Literal.respects_ofText budget).map Expr.literal
  | call =>
      cases budget with
      | zero => exact respects_of_refusal fun text x h => payloadOfText_zero (by decide) h
      | succ less => exact respects_callOfText (hless rfl)
  | binary =>
      cases budget with
      | zero => exact respects_of_refusal fun text x h => payloadOfText_zero (by decide) h
      | succ less => exact respects_binaryOfText (hless rfl)
  | unary =>
      cases budget with
      | zero => exact respects_of_refusal fun text x h => payloadOfText_zero (by decide) h
      | succ less => exact respects_unaryOfText (hless rfl)
  | paren => exact (hbudget budget (Nat.le_refl _)).map Expr.paren
  | wildcard => exact respects_unit.map fun _ => Expr.wildcard

end Payloads

/-- An expression is read without repetitions at any depth. -/
theorem respects_ofText (budget : Nat) : Respects .expr (ofText budget) := by
  induction budget using Nat.strongRecOn with
  | ind budget ih =>
      refine respects_variant ExprVariant.ofName ExprVariant.payloadRole
        (fun {text e after} h => ?_) nofun fun hname h => not_repeats_expr hname h
      rw [ofText.eq_def] at h
      split at h
      · cases h
      · next name behind hstart =>
          split at h
          · cases h
          · obtain rfl : behind = after := congrArg Prod.snd (Except.ok.inj h)
            exact .inl ⟨name, hstart⟩
      · next inside hstart =>
          cases budget with
          | zero => cases h
          | succ less =>
              refine .inr ⟨inside, payloadOfText less, hstart, respects_payloadOfText
                fun few hfew => ih few (Nat.lt_succ_of_le hfew), ?_⟩
              dsimp only at h
              split at h
              · cases h
              · next variant start hkey =>
                  rw [hkey]
                  cases variant <;> exact h

end Expr

namespace SortField

/-- The values of the fields of a sort criterion. -/
def sortValue :
    (field : SortKey) → List Char → Except ReadError (sortReader.Value field × List Char)
  | .name => TextReader.string "a string"
  | .ascending => TextReader.boolean

theorem respects_sortValue (field : SortKey) : Respects field.schema.role (sortValue field) := by
  cases field with
  | name => exact respects_string _
  | ascending => exact respects_boolean

theorem respects_ofText (budget : Nat) : Respects (.object .sortField) (ofText budget) := by
  apply respects_object
  intro text x after h
  unfold ofText at h
  split at h
  · cases h
  · next inside htext =>
      split at h
      · cases h
      obtain ⟨⟨slots, behind⟩, hmembers, h⟩ := exists_of_bind_eq_ok h
      obtain ⟨_, -, hrest⟩ := exists_of_bind_eq_ok h
      obtain rfl : behind = after := congrArg Prod.snd (Except.ok.inj hrest)
      refine .inl ⟨inside, htext, object_eq_ok sortReader_follows sortValue respects_sortValue
        hmembers fun slots key text => ?_⟩
      have hfield : sortReader.field? key = SortKey.ofKey? key := rfl
      rw [ObjectReader.takeText, hfield]
      cases SortKey.ofKey? key with
      | none => rfl
      | some field => cases field <;> rfl
  · next inside htext =>
      split at h
      · cases h
      obtain ⟨⟨name, behind⟩, hname, h⟩ := exists_of_bind_eq_ok h
      obtain ⟨item, hone, hitem⟩ := nextOf_eq_ok (respects_sortValue .name) hname
      obtain ⟨next, hnext, h⟩ := exists_of_bind_eq_ok h
      cases next with
      | none =>
          refine .inr ⟨inside, htext, [item], hitem (finished_eq_ok h), not_repeats_array ?_⟩
          simpa [ObjectRole.schema, SortKey.schema] using hone
      | some start =>
          obtain ⟨⟨ascending, behind'⟩, hascending, h⟩ := exists_of_bind_eq_ok h
          obtain ⟨truth, hboth, htruth⟩ :=
            foundElement_eq_ok (respects_sortValue .ascending) hnext hascending
          refine .inr ⟨inside, htext, [item, truth], hitem (htruth (finished_eq_ok h)),
            not_repeats_array ?_⟩
          simpa [ObjectRole.schema, SortKey.schema] using ⟨hone, hboth⟩
  · cases h

theorem respects_listOfText (budget : Nat) :
    Respects (.list (.object .sortField)) (listOfText budget) := by
  apply respects_list
  intro text xs after h
  unfold listOfText at h
  split at h
  · cases h
  · next inside htext =>
      split at h
      · cases h
      · exact ⟨inside, _, _, htext, respects_ofText (budget - 1), h⟩
  · cases h

end SortField

namespace Query

theorem respects_conditionOfText (budget : Nat) :
    Respects (.optional .expr) (conditionOfText budget) := by
  intro text x after h
  unfold conditionOfText at h
  split at h
  · next inside htext =>
      refine ⟨.scalar, ?_, scalar_not_repeats⟩
      rw [Spells, htext]
      exact word_eq_ok h
  · obtain ⟨e, he⟩ := exists_of_map_pair_eq_ok h fun _ => rfl
    obtain ⟨outline, hspell, hone⟩ := Expr.respects_ofText budget he
    refine ⟨outline, (spells_congr (skipBlanks_skipBlanks text)).mp hspell, fun hrepeats => ?_⟩
    cases hrepeats with
    | optional h => exact hone h

/-- The values of the fields of a query. -/
def queryValue (budget : Nat) :
    (field : QueryField) → List Char → Except ReadError (queryReader.Value field × List Char)
  | .offset | .limit => count
  | .sortFields => SortField.listOfText budget
  | .filterCondition => conditionOfText budget
  | .dimensions | .fields => Expr.listOfText budget

theorem respects_queryValue (budget : Nat) (field : QueryField) :
    Respects field.schema.role (queryValue budget field) := by
  cases field with
  | offset | limit => exact respects_number _ _
  | sortFields => exact SortField.respects_listOfText budget
  | filterCondition => exact respects_conditionOfText budget
  | dimensions | fields =>
      exact Expr.respects_listOfText fun less _ => Expr.respects_ofText less

theorem fieldOfText_eq (budget : Nat) (slots : QuerySlots) (field : QueryField)
    (text : List Char) :
    fieldOfText budget slots field text = (do
      let (x, rest) ← queryValue budget field text
      .ok (queryReader.set field x slots, rest)) := by
  have hmap : fieldOfText budget slots field text = (queryValue budget field text).map
      fun (x, rest) => (queryReader.set field x slots, rest) := by
    cases field <;> rfl
  rw [hmap]
  cases queryValue budget field text <;> rfl

/-- The array form of a query is read without repetitions in its elements. -/
theorem elementsOfText_eq_ok {fields : List QueryField} {first : Bool} {slots final : QuerySlots}
    (h : elementsOfText budget slots first fields text = .ok (final, after)) :
    ∃ items last, (∀ {more rest}, SpellsItems more last after rest →
        SpellsItems (items ++ more) first text rest) ∧
      ∀ entry ∈ (fields.map QueryField.schema).zip items, ¬entry.2.Repeats entry.1.role := by
  induction fields generalizing first text slots with
  | nil =>
      obtain rfl : text = after := congrArg Prod.snd (Except.ok.inj h)
      exact ⟨[], first, id, List.forall_mem_nil _⟩
  | cons field fields ih =>
      obtain ⟨next, hnext, hread⟩ := exists_of_bind_eq_ok h
      cases next with
      | none =>
          obtain rfl : text = after := congrArg Prod.snd (Except.ok.inj hread)
          exact ⟨[], first, id, List.forall_mem_nil _⟩
      | some start =>
          obtain ⟨⟨filled, behind⟩, hfield, hread⟩ := exists_of_bind_eq_ok hread
          rw [fieldOfText_eq] at hfield
          obtain ⟨⟨x, behind'⟩, hx, hrest⟩ := exists_of_bind_eq_ok hfield
          obtain rfl : behind' = behind := congrArg Prod.snd (Except.ok.inj hrest)
          obtain ⟨item, hone, hitem⟩ :=
            foundElement_eq_ok (respects_queryValue budget field) hnext hx
          obtain ⟨items, last, hitems, hall⟩ := ih hread
          exact ⟨item :: items, last, fun hmore => hitem (hitems hmore),
            List.forall_mem_cons.mpr ⟨hone, hall⟩⟩

theorem respects_startOfText (budget : Nat) : Respects (.object .query) (startOfText budget) := by
  apply respects_object
  intro text x after h
  unfold startOfText at h
  split at h
  · cases h
  · next inside htext =>
      split at h
      · cases h
      obtain ⟨⟨slots, behind⟩, hmembers, hrest⟩ := exists_of_bind_eq_ok h
      obtain rfl : behind = after := congrArg Prod.snd (Except.ok.inj hrest)
      refine .inl ⟨inside, htext, object_eq_ok queryReader_follows (queryValue (budget - 1))
        (respects_queryValue (budget - 1)) hmembers fun slots key text => ?_⟩
      have hfield : queryReader.field? key = QueryField.ofKey? key := rfl
      rw [ObjectReader.takeText, hfield]
      cases QueryField.ofKey? key with
      | none => rfl
      | some field =>
          have hfilled : queryReader.filled slots field = slots.filled field := rfl
          dsimp only
          rw [member, hfilled]
          split
          · rfl
          · cases colon text with
            | error fault => rfl
            | ok inside => exact fieldOfText_eq (budget - 1) slots field inside
  · next inside htext =>
      split at h
      · cases h
      obtain ⟨⟨slots, behind⟩, helements, h⟩ := exists_of_bind_eq_ok h
      obtain ⟨items, last, hitems, hall⟩ := elementsOfText_eq_ok helements
      have hspell := hitems (finished_eq_ok h)
      rw [List.append_nil] at hspell
      exact .inr ⟨inside, htext, items, hspell, not_repeats_array hall⟩
  · cases h

/-- A JSON text that is read as a query is a value that repeats no field. -/
theorem ofText_eq_ok {text : String} {query : Query} (h : ofText text = .ok query) :
    ∃ outline : Outline, outline.OfJson text ∧ ¬outline.Repeats (.object .query) := by
  obtain ⟨⟨query', behind⟩, hstart, -⟩ := exists_of_bind_eq_ok h
  obtain ⟨outline, hspell, hnone⟩ := respects_startOfText nestingLimit hstart
  exact ⟨outline, ⟨behind, hspell⟩, hnone⟩

end Query

end AggQuery
