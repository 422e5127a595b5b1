import AggQuery.Proofs.Yaml.Folding
import AggQuery.Yaml.Token

/-!
# Steps of the division into tokens

Inside flow collections a step of the tokenizer depends on little of its state: on the next
character, on whether a key may start, and on the possible key that was noted last. `Settled`
says what stays true from step to step, and a step with one token more goes on to such a state
(`arrives_of_token`).

## Implementation notes

`Reaches` counts the steps from one state to another against the characters they read, so that
a run with enough fuel for a text goes through all of them. `emitted` puts the new tokens in
front of those that are to follow.
-/

namespace AggQuery.Yaml.Tokenizer

/-- A possible key that need not turn out to be one. -/
def IsLoose (key : Option PossibleKey) : Prop := ∀ k ∈ key, k.required = false

/-- A state at the start of a token, inside `depth` flow collections and no block. -/
structure Settled (bound depth : Nat) (t : Tokenizer) : Prop where
  depth_eq : t.suspended.length = depth
  count_eq : t.count = t.tokens.length
  column_pos : 0 < t.cursor.column
  indent_eq : t.indent = none
  outer_eq : t.outer = []
  possible_loose : IsLoose t.possible
  suspended_loose : ∀ key ∈ t.suspended, IsLoose key
  /-- There is fuel for the loops over the rest of the text. -/
  bound_gt : t.cursor.rest.length + 1 < bound

/-- A run goes on from one state to another, and the tokens in between are the emitted ones. -/
structure Reaches (bound : Nat) (t t' : Tokenizer) (emitted : List Token → List Token) :
    Prop where
  run_eq : ∃ steps, steps + t'.cursor.rest.length ≤ t.cursor.rest.length ∧
    ∀ fuel, run bound (fuel + steps) t = run bound fuel t'
  emits : ∀ more, t'.tokens.reverse ++ more = t.tokens.reverse ++ emitted more

/-- A run gets to a place where the text is no YAML text. -/
def Fails (bound : Nat) (t : Tokenizer) : Prop :=
  ∃ steps ≤ t.cursor.rest.length, ∀ fuel, run bound (fuel + steps) t = none

/-- A run goes on to the start of a token, inside `depth` flow collections, where a given rest
of the text is left. -/
structure Arrives (bound depth : Nat) (t : Tokenizer) (emitted : List Token → List Token)
    (rest : List Char) (t' : Tokenizer) : Prop extends Reaches bound t t' emitted where
  settled : Settled bound depth t'
  rest_eq : t'.cursor.rest = rest

section Runs

variable {bound : Nat} {t t' t'' : Tokenizer} {first second : List Token → List Token}

theorem Reaches.trans (h : Reaches bound t t' first) (h' : Reaches bound t' t'' second) :
    Reaches bound t t'' (first ∘ second) := by
  obtain ⟨steps, hsteps, hrun⟩ := h.run_eq
  obtain ⟨steps', hsteps', hrun'⟩ := h'.run_eq
  refine ⟨⟨steps' + steps, by omega, fun fuel => ?_⟩, fun more => ?_⟩
  · rw [← Nat.add_assoc, hrun, hrun']
  · rw [h'.emits, h.emits]
    rfl

theorem Fails.of_reaches (h : Reaches bound t t' first) (h' : Fails bound t') :
    Fails bound t := by
  obtain ⟨steps, hsteps, hrun⟩ := h.run_eq
  obtain ⟨steps', hsteps', hrun'⟩ := h'
  refine ⟨steps' + steps, by omega, fun fuel => ?_⟩
  rw [← Nat.add_assoc, hrun, hrun']

end Runs

/-- A run goes on to a given rest of the text with the emitted tokens, or fails where there
are none. -/
def Lands (bound depth : Nat) (t : Tokenizer) (rest : List Char) :
    Option (List Token → List Token) → Prop
  | none => Fails bound t
  | some emitted => ∃ t', Arrives bound depth t emitted rest t'

section Lands

variable {α β γ : Type} {bound depth depth' : Nat} {t t' : Tokenizer} {rest rest' : List Char}
  {first : List Token → List Token} {x : Option α} {y : Option β}
  {f : α → List Token → List Token} {g : β → List Token → List Token}

theorem Arrives.trans {t'' : Tokenizer} {second : List Token → List Token}
    (h : Arrives bound depth t first rest t') (h' : Arrives bound depth' t' second rest' t'') :
    Arrives bound depth' t (first ∘ second) rest' t'' :=
  { h.toReaches.trans h'.toReaches with settled := h'.settled, rest_eq := h'.rest_eq }

/-- What comes behind a first part that is read anyway. -/
theorem Arrives.lands (h : Arrives bound depth t first rest t')
    (hnext : Lands bound depth' t' rest' (y.map g)) :
    Lands bound depth' t rest' (y.map (first ∘ g ·)) := by
  cases y with
  | none => exact Fails.of_reaches h.toReaches hnext
  | some y =>
      obtain ⟨t'', harrives⟩ := hnext
      exact ⟨t'', h.trans harrives⟩

/-- Two parts, one behind the other, are read as what they are part of. -/
theorem Lands.both (h : Lands bound depth t rest (x.map f))
    (hnext : ∀ t', Settled bound depth t' → t'.cursor.rest = rest →
      Lands bound depth' t' rest' (y.map g))
    {join : α → β → γ} {emitted : γ → List Token → List Token}
    (hjoin : ∀ x y, emitted (join x y) = f x ∘ g y) :
    Lands bound depth' t rest' ((x.bind fun x => y.map (join x)).map emitted) := by
  cases x with
  | none => exact h
  | some x =>
      obtain ⟨t', harrives⟩ := h
      have hall := harrives.lands (hnext t' harrives.settled harrives.rest_eq)
      rw [Option.bind_some, Option.map_map]
      simpa only [Function.comp_def, hjoin] using hall

end Lands

/-- A character that starts a token: no blank, no break, and nothing else that is passed
over. -/
def StartsToken (c : Char) : Prop :=
  isBlank c = false ∧ isBreak c = false ∧ c ≠ '#' ∧ c ≠ '\ufeff'

instance (c : Char) : Decidable (StartsToken c) := inferInstanceAs (Decidable (_ ∧ _))

/-- A possible key, if it is not stale. -/
def fresh (cursor : Cursor) (key : Option PossibleKey) : Option PossibleKey :=
  key.bind fun key => if isStale cursor key then none else some key

/-- The state without its stale keys. -/
def refreshed (t : Tokenizer) : Tokenizer :=
  { t with
    possible := fresh t.cursor t.possible
    suspended := t.suspended.map (fresh t.cursor) }

section Step

variable {bound depth : Nat} {t : Tokenizer} {c : Char} {rest : List Char}

theorem isLoose_fresh (cursor : Cursor) {key : Option PossibleKey} (h : IsLoose key) :
    IsLoose (fresh cursor key) := by
  intro k hk
  obtain ⟨before, hbefore, hkept⟩ := Option.bind_eq_some_iff.mp hk
  split at hkept
  · cases hkept
  · obtain rfl := Option.some.inj hkept
    exact h before hbefore

theorem refreshKey_of_isLoose (cursor : Cursor) {key : Option PossibleKey} (h : IsLoose key) :
    refreshKey cursor key = some (fresh cursor key) := by
  cases key with
  | none => rfl
  | some key =>
      have hrequired : key.required = false := h key rfl
      cases hstale : isStale cursor key <;> simp [refreshKey, fresh, hstale, hrequired]

theorem mapM_refreshKey (cursor : Cursor) {keys : List (Option PossibleKey)}
    (h : ∀ key ∈ keys, IsLoose key) :
    keys.mapM (refreshKey cursor) = some (keys.map (fresh cursor)) := by
  induction keys with
  | nil => rfl
  | cons key keys ih =>
      obtain ⟨hkey, hkeys⟩ := List.forall_mem_cons.mp h
      rw [List.mapM_cons, refreshKey_of_isLoose cursor hkey, ih hkeys]
      rfl

theorem refreshKeys_eq (h : Settled bound depth t) : t.refreshKeys = some t.refreshed := by
  rw [refreshKeys, refreshKey_of_isLoose _ h.possible_loose, mapM_refreshKey _ h.suspended_loose]
  rfl

theorem settled_refreshed (h : Settled bound depth t) : Settled bound depth t.refreshed where
  depth_eq := by simpa [refreshed] using h.depth_eq
  count_eq := h.count_eq
  column_pos := h.column_pos
  indent_eq := h.indent_eq
  outer_eq := h.outer_eq
  possible_loose := isLoose_fresh _ h.possible_loose
  suspended_loose := by
    intro key hkey
    obtain ⟨before, hbefore, rfl⟩ := List.mem_map.mp hkey
    exact isLoose_fresh _ (h.suspended_loose before hbefore)
  bound_gt := h.bound_gt

theorem skipGap_eq (hbound : 0 < bound) (hrest : t.cursor.rest = c :: rest)
    (hc : StartsToken c) : t.skipGap bound = some t := by
  obtain ⟨hblank, hbreak, hcomment, hmark⟩ := hc
  obtain ⟨bound, rfl⟩ := Nat.exists_eq_add_one.mpr hbound
  have hspace : c ≠ ' ' ∧ c ≠ '\t' := by simpa [isBlank] using hblank
  have hskip : t.cursor.skipWhile
      (fun c => c = ' ' || (c = '\t' && (t.inFlow || !t.keyAllowed))) = t.cursor := by
    have htake : t.cursor.rest.takeWhile
        (fun c => c = ' ' || (c = '\t' && (t.inFlow || !t.keyAllowed))) = [] := by
      simp [hrest, hspace]
    rw [Cursor.skipWhile, htake]
    rfl
  rw [skipGap]
  simp [hrest, hmark, hskip, hcomment, takeBreak_eq_none _ hrest hbreak, moveTo]

theorem closeBlocks_eq (h : Settled bound depth t) (column : Option Nat) :
    t.closeBlocks column = t := by
  have hindent := h.indent_eq
  have houter := h.outer_eq
  obtain ⟨cursor, tokens, count, indent, outer, keyAllowed, possible, suspended⟩ := t
  obtain rfl : indent = none := hindent
  obtain rfl : outer = [] := houter
  unfold closeBlocks
  split
  · rfl
  · rw [closeBlocks.go.eq_def]
    rfl

/-- A step inside a flow collection reads one token. -/
theorem run_succ (h : Settled bound (depth + 1) t) (hrest : t.cursor.rest = c :: rest)
    (hc : StartsToken c) (fuel : Nat) :
    run bound (fuel + 1) t = (t.refreshed.token bound c rest).bind (run bound fuel) := by
  have hrest' : t.refreshed.cursor.rest = c :: rest := hrest
  rw [run, skipGap_eq (Nat.zero_lt_of_lt h.bound_gt) hrest hc]
  simp [refreshKeys_eq h, closeBlocks_eq (settled_refreshed h), hrest']

/-- A step that appends one token. -/
theorem arrives_of_token (h : Settled bound (depth + 1) t) (hrest : t.cursor.rest = c :: rest)
    (hc : StartsToken c) {t' : Tokenizer} {token : Token} {depth' : Nat} {rest' : List Char}
    (htoken : t.refreshed.token bound c rest = some t') (hsettled : Settled bound depth' t')
    (hrest' : t'.cursor.rest = rest') (hlength : rest'.length ≤ rest.length)
    (htokens : t'.tokens = token :: t.tokens) :
    Arrives bound depth' t (token :: ·) rest' t' where
  run_eq := by
    refine ⟨1, ?_, fun fuel => by rw [run_succ h hrest hc, htoken, Option.bind_some]⟩
    rw [hrest', hrest, List.length_cons]
    omega
  emits more := by simp [htokens]
  settled := hsettled
  rest_eq := hrest'

theorem fails_of_token (h : Settled bound (depth + 1) t) (hrest : t.cursor.rest = c :: rest)
    (hc : StartsToken c) (htoken : t.refreshed.token bound c rest = none) : Fails bound t :=
  ⟨1, by simp [hrest], fun fuel => by rw [run_succ h hrest hc, htoken, Option.bind_none]⟩

end Step

/-- The place where a key may start. -/
def keyHere (t : Tokenizer) : PossibleKey where
  required := false
  position := t.count
  index := t.cursor.index
  line := t.cursor.line
  column := t.cursor.column

theorem atMarker_of_column_pos {cursor : Cursor} (h : 0 < cursor.column) :
    cursor.atMarker = false := by
  simp [Cursor.atMarker, Nat.pos_iff_ne_zero.mp h]

namespace Settled

variable {bound depth : Nat} {t : Tokenizer}

/-- Neither a directive nor a document marker stands inside a line. -/
theorem inLine (h : Settled bound depth t) : t.cursor.column ≠ 0 ∧ t.cursor.atMarker = false :=
  ⟨Nat.pos_iff_ne_zero.mp h.column_pos, atMarker_of_column_pos h.column_pos⟩

/-- A token more, and less text. -/
theorem moved (h : Settled bound depth t) (token : Token) {next : Cursor}
    (hlength : next.rest.length ≤ t.cursor.rest.length) (hcolumn : 0 < next.column) :
    Settled bound depth ((t.push token).moveTo next) where
  depth_eq := h.depth_eq
  count_eq := congrArg (· + 1) h.count_eq
  column_pos := hcolumn
  indent_eq := h.indent_eq
  outer_eq := h.outer_eq
  possible_loose := h.possible_loose
  suspended_loose := h.suspended_loose
  bound_gt := Nat.lt_of_le_of_lt (Nat.add_le_add_right hlength 1) h.bound_gt

theorem take (h : Settled bound depth t) (n : Nat) (token : Token) :
    Settled bound depth (t.take n token) := by
  refine h.moved token ?_ (Nat.add_pos_left h.column_pos n)
  change (t.cursor.rest.drop n).length ≤ t.cursor.rest.length
  rw [List.length_drop]
  omega

theorem withAllowed (h : Settled bound depth t) (allowed : Bool) :
    Settled bound depth { t with keyAllowed := allowed } := { h with }

theorem withoutKey (h : Settled bound depth t) (allowed : Bool) :
    Settled bound depth { t with possible := none, keyAllowed := allowed } :=
  { h with possible_loose := nofun }

theorem withKeyHere (h : Settled bound depth t) (allowed : Bool) :
    Settled bound depth { t with possible := some t.keyHere, keyAllowed := allowed } :=
  { h with possible_loose := fun k hk => by cases hk; rfl }

theorem opened (h : Settled bound depth t) :
    Settled bound (depth + 1)
      { t with suspended := t.possible :: t.suspended, possible := none, keyAllowed := true } :=
  { h with
    depth_eq := congrArg (· + 1) h.depth_eq
    possible_loose := nofun
    suspended_loose := List.forall_mem_cons.mpr ⟨h.possible_loose, h.suspended_loose⟩ }

theorem dropKey_eq (h : Settled bound depth t) : t.dropKey = some { t with possible := none } := by
  have hloose := h.possible_loose
  obtain ⟨cursor, tokens, count, indent, outer, keyAllowed, possible, suspended⟩ := t
  cases possible with
  | none => rfl
  | some key => simp [dropKey, hloose key rfl]

theorem inFlow_eq (h : Settled bound (depth + 1) t) : t.inFlow = true := by
  have hdepth := h.depth_eq
  cases hsuspended : t.suspended with
  | nil => simp [hsuspended] at hdepth
  | cons key keys => simp [inFlow, hsuspended]

/-- Noting a key changes at most what the possible key is. -/
theorem noteKey_eq (h : Settled bound (depth + 1) t) :
    t.noteKey = some (if t.keyAllowed then { t with possible := some t.keyHere } else t) := by
  have hflow := h.inFlow_eq
  cases hallowed : t.keyAllowed with
  | false => simp [noteKey, hallowed]
  | true =>
      simp only [noteKey, hallowed, h.dropKey_eq, if_true, Option.bind_eq_bind, Option.bind_some]
      simp only [inFlow] at hflow
      simp [inFlow, hflow, keyHere]

theorem exists_noteKey (h : Settled bound (depth + 1) t) :
    ∃ noted, t.noteKey = some noted ∧ Settled bound (depth + 1) noted ∧
      noted.cursor = t.cursor ∧ noted.tokens = t.tokens := by
  rw [h.noteKey_eq]
  split
  · exact ⟨_, rfl, h.withKeyHere t.keyAllowed, rfl, rfl⟩
  · exact ⟨_, rfl, h, rfl, rfl⟩

end Settled

end AggQuery.Yaml.Tokenizer
