import AggQuery.Proofs.Reading.Queries

/-!
# Objects read field by field

The objects of a query document are all read in one way: each known key is taken once, its
value changes what was read so far, and at the end the object is completed. `ObjectReader`
says what such a reader consists of and which laws make its outcome independent of the order
of the fields; the readers of queries, sort criteria, calls and operations are instances.

## Implementation notes

Two readings are compared by `Except.toOption`, which forgets the error: in another order
another fault may be met first.
-/

namespace AggQuery

section Outcomes

variable {ε α β σ τ : Type}

theorem toOption_bind (result : Except ε α) (next : α → Except ε β) :
    (result >>= next).toOption = result.toOption.bind fun x => (next x).toOption := by
  cases result <;> rfl

theorem toOption_map (f : α → β) (result : Except ε α) :
    (f <$> result).toOption = result.toOption.map f := by
  cases result <;> rfl

theorem toOption_eq_some_iff {result : Except ε α} {x : α} :
    result.toOption = some x ↔ result = .ok x := by
  cases result <;> simp [Except.toOption]

variable {step : σ → τ → Except ε σ}

/-- Entries that may be taken in either order may be taken in any order. -/
theorem toOption_foldlM_perm
    (hcomm : ∀ s a b, (step s a >>= fun s => step s b).toOption =
      (step s b >>= fun s => step s a).toOption)
    {entries others : List τ} (h : entries.Perm others) (s : σ) :
    (entries.foldlM step s).toOption = (others.foldlM step s).toOption := by
  induction h generalizing s with
  | nil => rfl
  | cons entry _ ih =>
      rw [List.foldlM_cons, List.foldlM_cons, toOption_bind, toOption_bind]
      exact congrArg _ (funext ih)
  | swap first second rest =>
      simp only [List.foldlM_cons, ← bind_assoc]
      rw [toOption_bind, hcomm s second first, ← toOption_bind]
  | trans _ _ ih ih' => exact (ih s).trans (ih' s)

/-- An entry may be replaced by one that is taken alike. -/
theorem toOption_foldlM_congr {entry other : τ}
    (h : ∀ s, (step s entry).toOption = (step s other).toOption) (before after : List τ) (s : σ) :
    ((before ++ entry :: after).foldlM step s).toOption =
      ((before ++ other :: after).foldlM step s).toOption := by
  rw [List.foldlM_append, List.foldlM_append, toOption_bind, toOption_bind]
  congr 1
  funext s
  rw [List.foldlM_cons, List.foldlM_cons, toOption_bind, toOption_bind, h]

end Outcomes

/-- How an object with named fields is read. Setting a field fills that field and no other
one, and settings of different fields do not disturb each other. -/
structure ObjectReader (σ φ α : Type) where
  field? : String → Option φ
  name : φ → String
  Value : φ → Type
  readValue : (field : φ) → Document → Except ShapeError (Value field)
  set : (field : φ) → Value field → σ → σ
  filled : σ → φ → Bool
  initial : σ
  finish : σ → Except ShapeError α
  filled_initial : ∀ field, filled initial field = false
  filled_set_self : ∀ field x slots, filled (set field x slots) field = true
  filled_set_of_ne : ∀ {field other}, field ≠ other → ∀ x slots,
    filled (set field x slots) other = filled slots other
  set_comm : ∀ {field other}, field ≠ other → ∀ x y slots,
    set other y (set field x slots) = set field x (set other y slots)

namespace ObjectReader

variable {σ φ α : Type} (reader : ObjectReader σ φ α)

/-- Taking one field. -/
def take (slots : σ) (entry : String × Document) : Except ShapeError σ :=
  match reader.field? entry.1 with
  | none => .ok slots
  | some field =>
    if reader.filled slots field then .error (.duplicateField (reader.name field))
    else (fun x => reader.set field x slots) <$> reader.readValue field entry.2

/-- The object that fields describe. -/
def read (fields : Fields) : Except ShapeError α := do
  reader.finish (← fields.foldlM reader.take reader.initial)

variable {reader}

theorem take_of_unknown {entry : String × Document} (h : reader.field? entry.1 = none)
    (slots : σ) : reader.take slots entry = .ok slots := by
  rw [take, h]

theorem take_of_field {entry : String × Document} {field : φ}
    (h : reader.field? entry.1 = some field) (slots : σ) :
    reader.take slots entry =
      if reader.filled slots field then .error (.duplicateField (reader.name field))
      else (fun x => reader.set field x slots) <$> reader.readValue field entry.2 := by
  rw [take, h]

theorem take_of_filled {entry : String × Document} {field : φ}
    (h : reader.field? entry.1 = some field) {slots : σ}
    (hfilled : reader.filled slots field = true) :
    (reader.take slots entry).toOption = none := by
  rw [take_of_field h, if_pos hfilled]
  rfl

theorem take_of_new {entry : String × Document} {field : φ}
    (h : reader.field? entry.1 = some field) {slots : σ}
    (hnew : reader.filled slots field = false) :
    (reader.take slots entry).toOption =
      (reader.readValue field entry.2).toOption.map fun x => reader.set field x slots := by
  rw [take_of_field h, if_neg (by simp [hnew]), toOption_map]

/-- The same field is not taken twice. -/
theorem take_twice {entry other : String × Document} {field : φ}
    (h : reader.field? entry.1 = some field) (hother : reader.field? other.1 = some field)
    (slots : σ) :
    (reader.take slots entry >>= fun slots => reader.take slots other).toOption = none := by
  rw [toOption_bind]
  cases hfilled : reader.filled slots field with
  | true =>
      rw [take_of_filled h hfilled]
      rfl
  | false =>
      rw [take_of_new h hfilled]
      cases hvalue : reader.readValue field entry.2 with
      | error e => rfl
      | ok x => exact take_of_filled hother (reader.filled_set_self field x slots)

/-- Two fields are taken one after the other if both are new and both values can be read. -/
theorem take_both {entry other : String × Document} {field further : φ}
    (h : reader.field? entry.1 = some field) (hother : reader.field? other.1 = some further)
    (hne : field ≠ further) (slots : σ) :
    (reader.take slots entry >>= fun slots => reader.take slots other).toOption =
      if reader.filled slots field || reader.filled slots further then none
      else (reader.readValue field entry.2).toOption.bind fun x =>
        (reader.readValue further other.2).toOption.map fun y =>
          reader.set further y (reader.set field x slots) := by
  rw [toOption_bind]
  cases hfilled : reader.filled slots field with
  | true =>
      rw [take_of_filled h hfilled]
      rfl
  | false =>
      rw [take_of_new h hfilled]
      cases hvalue : reader.readValue field entry.2 with
      | error e => simp [Except.toOption]
      | ok x =>
          have hkept := reader.filled_set_of_ne hne x slots
          change (reader.take (reader.set field x slots) other).toOption = _
          cases hfurther : reader.filled slots further with
          | true =>
              rw [take_of_filled hother (hkept.trans hfurther)]
              rfl
          | false =>
              rw [take_of_new hother (hkept.trans hfurther)]
              rfl

theorem take_unknown_comm {entry : String × Document} (h : reader.field? entry.1 = none)
    (slots : σ) (other : String × Document) :
    (reader.take slots entry >>= fun slots => reader.take slots other) =
      (reader.take slots other >>= fun slots => reader.take slots entry) := by
  simp only [take_of_unknown h]
  exact (bind_pure (reader.take slots other)).symm

/-- Two fields may be taken in either order. -/
theorem take_comm (slots : σ) (entry other : String × Document) :
    (reader.take slots entry >>= fun slots => reader.take slots other).toOption =
      (reader.take slots other >>= fun slots => reader.take slots entry).toOption := by
  cases h : reader.field? entry.1 with
  | none => rw [take_unknown_comm h]
  | some field =>
      cases hother : reader.field? other.1 with
      | none => rw [take_unknown_comm hother]
      | some further =>
          by_cases heq : field = further
          · subst heq
            rw [take_twice h hother, take_twice hother h]
          · rw [take_both h hother heq, take_both hother h (Ne.symm heq), Bool.or_comm]
            split
            · rfl
            · cases hvalue : reader.readValue field entry.2 with
              | error e => cases reader.readValue further other.2 <;> rfl
              | ok x =>
                  cases hfurther : reader.readValue further other.2 with
                  | error e => rfl
                  | ok y => exact congrArg some (reader.set_comm heq x y slots)

/-- The order of the fields does not matter. -/
theorem read_perm {fields others : Fields} (h : fields.Perm others) :
    (reader.read fields).toOption = (reader.read others).toOption := by
  rw [read, read, toOption_bind, toOption_bind, toOption_foldlM_perm take_comm h]

/-- A field may be replaced by one that is taken alike. -/
theorem read_congr {entry other : String × Document}
    (h : ∀ slots, (reader.take slots entry).toOption = (reader.take slots other).toOption)
    (before after : Fields) :
    (reader.read (before ++ entry :: after)).toOption =
      (reader.read (before ++ other :: after)).toOption := by
  rw [read, read, toOption_bind, toOption_bind, toOption_foldlM_congr h]

/-- A field under an unknown key may be left out. -/
theorem read_unknown {entry : String × Document} (h : reader.field? entry.1 = none)
    (before after : Fields) :
    reader.read (before ++ entry :: after) = reader.read (before ++ after) := by
  simp only [read, List.foldlM_append, List.foldlM_cons, take_of_unknown h]
  rfl

/-- A field that no key names stays empty. -/
theorem not_filled_of_foldlM {fields : Fields} {field : φ}
    (h : ∀ entry ∈ fields, reader.field? entry.1 ≠ some field) {slots final : σ}
    (hnew : reader.filled slots field = false)
    (hfinal : fields.foldlM reader.take slots = .ok final) :
    reader.filled final field = false := by
  induction fields generalizing slots with
  | nil =>
      obtain rfl := Except.ok.inj hfinal
      exact hnew
  | cons entry fields ih =>
      obtain ⟨hentry, hfields⟩ := List.forall_mem_cons.mp h
      rw [List.foldlM_cons] at hfinal
      obtain ⟨next, htake, hrest⟩ := exists_of_bind_eq_ok hfinal
      refine ih hfields ?_ hrest
      rw [take] at htake
      split at htake
      · obtain rfl := Except.ok.inj htake
        exact hnew
      · next further hfurther =>
          split at htake
          · cases htake
          · cases hvalue : reader.readValue further entry.2 with
            | error e =>
                rw [hvalue] at htake
                cases htake
            | ok x =>
                rw [hvalue] at htake
                obtain rfl := Except.ok.inj htake
                have hne : further ≠ field := fun heq => hentry (heq ▸ hfurther)
                exact (reader.filled_set_of_ne hne x slots).trans hnew

/-- A field may be left out whose value changes nothing in the completed object, if no other
key names it. -/
theorem read_default {entry : String × Document} {field : φ} {x : reader.Value field}
    (hfield : reader.field? entry.1 = some field)
    (hvalue : reader.readValue field entry.2 = .ok x)
    (hfinish : ∀ slots, reader.filled slots field = false →
      reader.finish (reader.set field x slots) = reader.finish slots)
    {before after : Fields}
    (hother : ∀ other ∈ before ++ after, reader.field? other.1 ≠ some field) :
    (reader.read (before ++ entry :: after)).toOption =
      (reader.read (before ++ after)).toOption := by
  have hperm : (before ++ entry :: after).Perm (before ++ after ++ [entry]) :=
    List.perm_middle.trans (List.perm_append_singleton entry (before ++ after)).symm
  rw [read_perm hperm, read, read, List.foldlM_append]
  cases hfinal : (before ++ after).foldlM reader.take reader.initial with
  | error e => rfl
  | ok final =>
      have hnew := not_filled_of_foldlM hother (reader.filled_initial field) hfinal
      have htake : reader.take final entry = .ok (reader.set field x final) := by
        rw [take_of_field hfield, if_neg (by simp [hnew]), hvalue]
        rfl
      change (([entry].foldlM reader.take final) >>= reader.finish).toOption = _
      rw [List.foldlM_cons, htake]
      exact congrArg Except.toOption (hfinish final hnew)

end ObjectReader

section Readers

/-- Queries read field by field. -/
def queryReader : ObjectReader QuerySlots QueryField Query where
  field? := QueryField.ofKey?
  name := QueryField.name
  Value
    | .offset | .limit => UInt64
    | .sortFields => List SortField
    | .filterCondition => Option Expr
    | .dimensions | .fields => List Expr
  readValue
    | .offset | .limit => Document.toCount
    | .sortFields => SortField.listOfDocument
    | .filterCondition => Query.conditionOfDocument
    | .dimensions | .fields => Expr.listOfDocument
  set
    | .offset, x, slots => { slots with offset := some x }
    | .limit, x, slots => { slots with limit := some x }
    | .sortFields, x, slots => { slots with sortFields := some x }
    | .filterCondition, x, slots => { slots with filterCondition := some x }
    | .dimensions, x, slots => { slots with dimensions := some x }
    | .fields, x, slots => { slots with fields := some x }
  filled := QuerySlots.filled
  initial := {}
  finish slots := .ok slots.finish
  filled_initial field := by cases field <;> rfl
  filled_set_self field x slots := by cases field <;> rfl
  filled_set_of_ne {field other} h x slots := by
    cases field <;> cases other <;> first | rfl | exact absurd rfl h
  set_comm {field other} h x y slots := by
    cases field <;> cases other <;> first | rfl | exact absurd rfl h

/-- Sort criteria read field by field. -/
def sortReader : ObjectReader SortSlots SortKey SortField where
  field? := SortKey.ofKey?
  name
    | .name => "name"
    | .ascending => "ascending"
  Value
    | .name => String
    | .ascending => Bool
  readValue
    | .name => Document.toText
    | .ascending => Document.toBoolean
  set
    | .name, x, slots => { slots with name := some x }
    | .ascending, x, slots => { slots with ascending := some x }
  filled
    | slots, .name => slots.name.isSome
    | slots, .ascending => slots.ascending.isSome
  initial := {}
  finish := SortSlots.finish
  filled_initial field := by cases field <;> rfl
  filled_set_self field x slots := by cases field <;> rfl
  filled_set_of_ne {field other} h x slots := by
    cases field <;> cases other <;> first | rfl | exact absurd rfl h
  set_comm {field other} h x y slots := by
    cases field <;> cases other <;> first | rfl | exact absurd rfl h

/-- Calls read field by field. -/
def callReader : ObjectReader CallSlots CallKey Expr where
  field? := CallKey.ofKey?
  name
    | .name => "name"
    | .args => "args"
  Value
    | .name => String
    | .args => List Expr
  readValue
    | .name => Document.toText
    | .args => Expr.listOfDocument
  set
    | .name, x, slots => { slots with name := some x }
    | .args, x, slots => { slots with args := some x }
  filled
    | slots, .name => slots.name.isSome
    | slots, .args => slots.args.isSome
  initial := {}
  finish := CallSlots.finish
  filled_initial field := by cases field <;> rfl
  filled_set_self field x slots := by cases field <;> rfl
  filled_set_of_ne {field other} h x slots := by
    cases field <;> cases other <;> first | rfl | exact absurd rfl h
  set_comm {field other} h x y slots := by
    cases field <;> cases other <;> first | rfl | exact absurd rfl h

/-- Operations with two operands read field by field. -/
def binaryReader : ObjectReader BinarySlots BinaryKey Expr where
  field? := BinaryKey.ofKey?
  name
    | .op => "op"
    | .lhs => "lhs"
    | .rhs => "rhs"
  Value
    | .op => BinaryOp
    | .lhs | .rhs => Expr
  readValue
    | .op => BinaryOp.ofDocument
    | .lhs | .rhs => Expr.ofDocument
  set
    | .op, x, slots => { slots with op := some x }
    | .lhs, x, slots => { slots with lhs := some x }
    | .rhs, x, slots => { slots with rhs := some x }
  filled
    | slots, .op => slots.op.isSome
    | slots, .lhs => slots.lhs.isSome
    | slots, .rhs => slots.rhs.isSome
  initial := {}
  finish := BinarySlots.finish
  filled_initial field := by cases field <;> rfl
  filled_set_self field x slots := by cases field <;> rfl
  filled_set_of_ne {field other} h x slots := by
    cases field <;> cases other <;> first | rfl | exact absurd rfl h
  set_comm {field other} h x y slots := by
    cases field <;> cases other <;> first | rfl | exact absurd rfl h

/-- Operations with one operand read field by field. -/
def unaryReader : ObjectReader UnarySlots UnaryKey Expr where
  field? := UnaryKey.ofKey?
  name
    | .op => "op"
    | .expr => "expr"
  Value
    | .op => UnaryOp
    | .expr => Expr
  readValue
    | .op => UnaryOp.ofDocument
    | .expr => Expr.ofDocument
  set
    | .op, x, slots => { slots with op := some x }
    | .expr, x, slots => { slots with expr := some x }
  filled
    | slots, .op => slots.op.isSome
    | slots, .expr => slots.expr.isSome
  initial := {}
  finish := UnarySlots.finish
  filled_initial field := by cases field <;> rfl
  filled_set_self field x slots := by cases field <;> rfl
  filled_set_of_ne {field other} h x slots := by
    cases field <;> cases other <;> first | rfl | exact absurd rfl h
  set_comm {field other} h x y slots := by
    cases field <;> cases other <;> first | rfl | exact absurd rfl h

theorem fillField_eq (slots : QuerySlots) (field : QueryField) (document : Document) :
    Query.fillField slots field document =
      (fun x => queryReader.set field x slots) <$> queryReader.readValue field document := by
  cases field <;> exact (map_eq_pure_bind _ _).symm

theorem takeField_eq (slots : QuerySlots) (entry : String × Document) :
    Query.takeField slots entry = queryReader.take slots entry := by
  have hfield : queryReader.field? entry.1 = QueryField.ofKey? entry.1 := rfl
  rw [Query.takeField, ObjectReader.take, hfield]
  cases QueryField.ofKey? entry.1 with
  | none => rfl
  | some field =>
      dsimp only
      rw [← fillField_eq]
      rfl

theorem takeSort_eq (slots : SortSlots) (entry : String × Document) :
    SortField.takeSort slots entry = sortReader.take slots entry := by
  have hfield : sortReader.field? entry.1 = SortKey.ofKey? entry.1 := rfl
  rw [SortField.takeSort, ObjectReader.take, hfield]
  cases SortKey.ofKey? entry.1 with
  | none => rfl
  | some field => cases field <;> rfl

theorem takeCall_eq (slots : CallSlots) (entry : String × Document) :
    Expr.takeCall slots entry = callReader.take slots entry := by
  have hfield : callReader.field? entry.1 = CallKey.ofKey? entry.1 := rfl
  rw [Expr.takeCall, ObjectReader.take, hfield]
  cases CallKey.ofKey? entry.1 with
  | none => rfl
  | some field => cases field <;> rfl

theorem takeBinary_eq (slots : BinarySlots) (entry : String × Document) :
    Expr.takeBinary slots entry = binaryReader.take slots entry := by
  have hfield : binaryReader.field? entry.1 = BinaryKey.ofKey? entry.1 := rfl
  rw [Expr.takeBinary, ObjectReader.take, hfield]
  cases BinaryKey.ofKey? entry.1 with
  | none => rfl
  | some field => cases field <;> rfl

theorem takeUnary_eq (slots : UnarySlots) (entry : String × Document) :
    Expr.takeUnary slots entry = unaryReader.take slots entry := by
  have hfield : unaryReader.field? entry.1 = UnaryKey.ofKey? entry.1 := rfl
  rw [Expr.takeUnary, ObjectReader.take, hfield]
  cases UnaryKey.ofKey? entry.1 with
  | none => rfl
  | some field => cases field <;> rfl

end Readers

end AggQuery
