import AggQuery.Proofs.Expr.Chain

/-!
# Unique readability

A script can be taken apart in one way only, up to how its operators are grouped. An
operand starts with a mark, which tells prefix operators and parentheses from the rest, or
is a leaf or a call, and then ends where its characters do. So a grouped tree is the only
grouped tree with its script, whatever the table of levels is.

## Implementation notes

All statements are about a script and the text behind it: operands lie before blanks, and
whole expressions only before the end, a closing parenthesis or a comma.
-/

namespace AggQuery

/-- Texts that share their longest beginning of a kind share the text behind it. -/
theorem append_inj_of_all {q : Char → Bool} {xs ys r s : List Char}
    (hxs : ∀ c ∈ xs, q c = true) (hys : ∀ c ∈ ys, q c = true)
    (hr : ∀ c, r.head? = some c → q c = false) (hs : ∀ c, s.head? = some c → q c = false)
    (h : xs ++ r = ys ++ s) : xs = ys ∧ r = s := by
  induction xs generalizing ys with
  | nil =>
      cases ys with
      | nil => exact ⟨rfl, h⟩
      | cons y ys =>
          have hy := hys y List.mem_cons_self
          rw [hr y (by rw [← List.nil_append r, h]; rfl)] at hy
          cases hy
  | cons x xs ih =>
      obtain ⟨hx, hxs⟩ := List.forall_mem_cons.mp hxs
      cases ys with
      | nil =>
          rw [hs x (by rw [← List.nil_append s, ← h]; rfl)] at hx
          cases hx
      | cons y ys =>
          obtain ⟨rfl, htail⟩ := List.cons.inj h
          obtain ⟨rfl, hrest⟩ := ih hxs (List.forall_mem_cons.mp hys).2 htail
          exact ⟨rfl, hrest⟩

theorem isIdentifierRest_of_start {c : Char} (h : isIdentifierStart c = true) :
    isIdentifierRest c = true := by
  simp only [isIdentifierStart, isIdentifierRest, Char.isAlphanum, Bool.or_eq_true] at h ⊢
  rcases h with (h | h) | h <;> simp [h]

theorem exists_start_of_plain {name : List Char} (h : isPlainIdentifier name = true) :
    ∃ c rest, name = c :: rest ∧ isIdentifierStart c = true := by
  cases name with
  | nil => cases h
  | cons c rest => exact ⟨c, rest, rfl, (Bool.and_eq_true_iff.mp h).1⟩

theorem isIdentifierRest_of_plain {name : List Char} (h : isPlainIdentifier name = true) :
    ∀ c ∈ name, isIdentifierRest c = true := by
  cases name with
  | nil => cases h
  | cons c rest =>
      obtain ⟨hstart, hrest⟩ := Bool.and_eq_true_iff.mp h
      exact List.forall_mem_cons.mpr
        ⟨isIdentifierRest_of_start hstart, List.all_eq_true.mp hrest⟩

/-- A text that does not continue an identifier before it. -/
def StopsIdentifier (rest : List Char) : Prop :=
  ∀ c, rest.head? = some c → isIdentifierRest c = false

theorem stopsIdentifier_open (rest : List Char) : StopsIdentifier ('(' :: rest) := by
  intro c hc
  obtain rfl := Option.some.inj hc
  decide

/-- A plain identifier can be told from the text behind it. -/
theorem plainIdentifier_append_inj {name other r s : List Char}
    (hname : isPlainIdentifier name = true) (hother : isPlainIdentifier other = true)
    (hr : StopsIdentifier r) (hs : StopsIdentifier s) (h : name ++ r = other ++ s) :
    name = other ∧ r = s :=
  append_inj_of_all (isIdentifierRest_of_plain hname) (isIdentifierRest_of_plain hother) hr hs h

namespace BinaryOp

theorem symbol_inj {op other : BinaryOp} (h : op.symbol = other.symbol) : op = other := by
  have hall : ∀ a ∈ all, ∀ b ∈ all, a.symbol = b.symbol → a = b := by decide +kernel
  exact hall op op.mem_all other other.mem_all h

theorem symbol_ne_blank (op : BinaryOp) : ∀ c ∈ op.symbol.toList, (c != ' ') = true := by
  cases op <;> simp [symbol]

/-- An operator and the text behind it can be told from the text behind its blank. -/
theorem symbol_append_inj {op other : BinaryOp} {r s : List Char}
    (h : op.symbol.toList ++ ' ' :: r = other.symbol.toList ++ ' ' :: s) :
    op = other ∧ r = s := by
  obtain ⟨hsymbol, hrest⟩ := append_inj_of_all op.symbol_ne_blank other.symbol_ne_blank
    (by simp) (by simp) h
  exact ⟨symbol_inj (String.toList_inj.mp hsymbol), (List.cons.inj hrest).2⟩

end BinaryOp

namespace UnaryOp

/-- The character of an operator. -/
theorem symbol_eq (op : UnaryOp) :
    ∃ mark, op.symbol.toList = [mark] ∧ (mark = '!' ∨ mark = '-') := by
  cases op
  · exact ⟨'!', by decide, Or.inl rfl⟩
  · exact ⟨'-', by decide, Or.inr rfl⟩

theorem symbol_inj {op other : UnaryOp} (h : op.symbol = other.symbol) : op = other := by
  have hall : ∀ a ∈ all, ∀ b ∈ all, a.symbol = b.symbol → a = b := by decide +kernel
  exact hall op op.mem_all other other.mem_all h

end UnaryOp

namespace Expr

/-- A text before which an operand ends. -/
def EndsOperand (rest : List Char) : Prop :=
  ∀ c, rest.head? = some c → c = ' ' ∨ c = ')' ∨ c = ','

/-- A text before which a whole expression ends. -/
def EndsWhole (rest : List Char) : Prop :=
  ∀ c, rest.head? = some c → c = ')' ∨ c = ','

theorem EndsWhole.endsOperand {rest : List Char} (h : EndsWhole rest) : EndsOperand rest :=
  fun c hc => Or.inr (h c hc)

theorem EndsWhole.nil : EndsWhole [] := by simp [EndsWhole]

theorem EndsWhole.close (rest : List Char) : EndsWhole (')' :: rest) := by
  simp [EndsWhole]

theorem EndsWhole.ne_blank {rest : List Char} (h : EndsWhole rest) (text : List Char) :
    rest ≠ ' ' :: text := by
  rintro rfl
  have hclose := h ' ' rfl
  simp at hclose

theorem EndsOperand.stopsIdentifier {rest : List Char} (h : EndsOperand rest) :
    StopsIdentifier rest := by
  intro c hc
  rcases h c hc with rfl | rfl | rfl <;> decide

theorem EndsWhole.moreOperandChars_append {rest : List Char} (h : EndsWhole rest)
    (more : List (BinaryOp × Expr)) : EndsOperand (moreOperandChars more ++ rest) := by
  cases more with
  | nil => exact h.endsOperand
  | cons x more => simp [EndsOperand, moreOperandChars]

theorem EndsWhole.moreArgChars_append {rest : List Char} (h : EndsWhole rest)
    (args : List Expr) : EndsWhole (moreArgChars args ++ rest) := by
  cases args with
  | nil => exact h
  | cons arg args => simp [EndsWhole, moreArgChars]

/-- The characters that a prefix operator, parentheses or the end of a call starts with. -/
def marks : List Char := ['!', '-', '(', ')']

/-- Leaves that can be told from all else that a script can hold at their place, and end
where their characters do. -/
structure SelfDelimiting (leaf : Expr → Prop) : Prop where
  head : ∀ {e}, leaf e → ∃ c rest, e.chars = c :: rest ∧ c ∉ marks
  unique : ∀ {e f r s}, leaf e → leaf f → EndsOperand r → EndsOperand s →
    e.chars ++ r = f.chars ++ s → e = f ∧ r = s
  ne_call : ∀ {e name r s}, leaf e → isPlainIdentifier name = true → EndsOperand r →
    e.chars ++ r ≠ name ++ '(' :: s

theorem isIdentifierStart_notMem_marks {c : Char} (h : isIdentifierStart c = true) :
    c ∉ marks := by
  intro hc
  simp only [marks, List.mem_cons, List.not_mem_nil, or_false] at hc
  rcases hc with rfl | rfl | rfl | rfl <;> exact absurd h (by decide)

theorem chars_call_append (name : String) (args : List Expr) (rest : List Char) :
    (call name args).chars ++ rest = name.toList ++ '(' :: (argChars args ++ ')' :: rest) := by
  simp [chars]

theorem chars_paren_append (inner : Expr) (rest : List Char) :
    (paren inner).chars ++ rest = '(' :: (inner.chars ++ ')' :: rest) := by
  simp [chars]

section Reading

variable (level : BinaryOp → Nat) (leaf : Expr → Prop)

/-- No other grouped operand has the same characters, whatever follows. -/
def DeterminedOperand (e : Expr) : Prop :=
  ∀ ⦃f r s⦄, Grouped level leaf f → f.IsOperand → EndsOperand r → EndsOperand s →
    e.chars ++ r = f.chars ++ s → e = f ∧ r = s

/-- No other grouped tree has the same characters, whatever follows. -/
def Determined (e : Expr) : Prop :=
  ∀ ⦃f r s⦄, Grouped level leaf f → EndsWhole r → EndsWhole s →
    e.chars ++ r = f.chars ++ s → e = f ∧ r = s

/-- A leaf or a call: an operand without a mark before it. -/
inductive Bare : Expr → Prop
  | leaf {e : Expr} (h : leaf e) : Bare e
  | call {name : String} {args : List Expr} (hname : isPlainIdentifier name.toList = true)
      (hargs : ∀ arg ∈ args, Grouped level leaf arg) : Bare (.call name args)

variable {level leaf}

theorem Grouped.operand_cases {e : Expr} (h : Grouped level leaf e) (hoperand : e.IsOperand) :
    Bare level leaf e ∨
      (∃ op operand, e = .unary op operand ∧ Grouped level leaf operand ∧ operand.IsOperand) ∨
      ∃ inner, e = .paren inner ∧ Grouped level leaf inner := by
  cases h with
  | field h => exact Or.inl (.leaf h)
  | literal h => exact Or.inl (.leaf h)
  | wildcard h => exact Or.inl (.leaf h)
  | call hname hargs => exact Or.inl (.call hname hargs)
  | binary _ _ _ _ => exact absurd rfl (hoperand _ _ _)
  | unary h hinner => exact Or.inr (Or.inl ⟨_, _, rfl, h, hinner⟩)
  | paren h => exact Or.inr (Or.inr ⟨_, rfl, h⟩)

theorem Bare.head (hleaf : SelfDelimiting leaf) {e : Expr} (h : Bare level leaf e) :
    ∃ c rest, e.chars = c :: rest ∧ c ∉ marks := by
  cases h with
  | leaf h => exact hleaf.head h
  | @call name args hname _ =>
      obtain ⟨c, rest, hchars, hstart⟩ := exists_start_of_plain hname
      refine ⟨c, rest ++ '(' :: argChars args ++ [')'], ?_,
        isIdentifierStart_notMem_marks hstart⟩
      rw [chars, hchars]
      simp

theorem Bare.chars_append_ne (hleaf : SelfDelimiting leaf) {e : Expr} (h : Bare level leaf e)
    {mark : Char} (hmark : mark ∈ marks) (r s : List Char) : e.chars ++ r ≠ mark :: s := by
  obtain ⟨c, rest, hchars, hc⟩ := h.head hleaf
  rw [hchars]
  intro heq
  obtain rfl := (List.cons.inj heq).1
  exact hc hmark

/-- A prefix operator is one character, which is no parenthesis. -/
theorem chars_unary (op : UnaryOp) (operand : Expr) :
    ∃ mark, op.symbol.toList = [mark] ∧ (unary op operand).chars = mark :: operand.chars ∧
      mark ∈ marks ∧ mark ≠ '(' ∧ mark ≠ ')' := by
  obtain ⟨mark, hsymbol, hmark⟩ := op.symbol_eq
  refine ⟨mark, hsymbol, by rw [chars, hsymbol]; rfl, ?_⟩
  rcases hmark with rfl | rfl <;> decide

theorem unary_append_ne_paren (op : UnaryOp) (operand inner : Expr) (r s : List Char) :
    (unary op operand).chars ++ r ≠ (paren inner).chars ++ s := by
  obtain ⟨mark, _, hchars, _, hopen, _⟩ := chars_unary op operand
  rw [hchars]
  intro heq
  exact hopen (List.cons.inj heq).1

variable (hleaf : SelfDelimiting leaf)
include hleaf

theorem Bare.append_ne_unary {e : Expr} (h : Bare level leaf e) (op : UnaryOp) (operand : Expr)
    (r s : List Char) : e.chars ++ r ≠ (unary op operand).chars ++ s := by
  obtain ⟨mark, _, hchars, hmark, _, _⟩ := chars_unary op operand
  rw [hchars]
  exact h.chars_append_ne hleaf hmark r _

theorem Bare.append_ne_paren {e : Expr} (h : Bare level leaf e) (inner : Expr)
    (r s : List Char) : e.chars ++ r ≠ (paren inner).chars ++ s :=
  h.chars_append_ne hleaf (by decide) r _

theorem determinedOperand_leaf {e : Expr} (he : leaf e) : DeterminedOperand level leaf e := by
  intro f r s hf hoperand hr hs h
  have hbare : Bare level leaf e := .leaf he
  rcases hf.operand_cases hoperand with hbareOther | ⟨op, operand, rfl, _, _⟩ | ⟨inner, rfl, _⟩
  · cases hbareOther with
    | leaf hf => exact hleaf.unique he hf hr hs h
    | call hname _ =>
        rw [chars_call_append] at h
        exact absurd h (hleaf.ne_call he hname hr)
  · exact absurd h (hbare.append_ne_unary hleaf op operand r s)
  · exact absurd h (hbare.append_ne_paren hleaf inner r s)

theorem determinedOperand_unary {op : UnaryOp} {operand : Expr}
    (h : DeterminedOperand level leaf operand) :
    DeterminedOperand level leaf (.unary op operand) := by
  intro f r s hf hoperand hr hs heq
  rcases hf.operand_cases hoperand with hbare | ⟨other, inner, rfl, hinner, hi⟩ | ⟨inner, rfl, _⟩
  · exact absurd heq.symm (hbare.append_ne_unary hleaf op operand s r)
  · obtain ⟨mark, hsymbol, hchars, _, _⟩ := chars_unary op operand
    obtain ⟨otherMark, hotherSymbol, hotherChars, _, _⟩ := chars_unary other inner
    rw [hchars, hotherChars] at heq
    obtain ⟨rfl, hoperands⟩ := List.cons.inj heq
    obtain rfl := UnaryOp.symbol_inj (String.toList_inj.mp (hsymbol.trans hotherSymbol.symm))
    obtain ⟨rfl, hrest⟩ := h hinner hi hr hs hoperands
    exact ⟨rfl, hrest⟩
  · exact absurd heq (unary_append_ne_paren op operand inner r s)

omit hleaf in
/-- Operators and operands can be told one by one. -/
theorem moreOperandChars_inj {xs ys : List (BinaryOp × Expr)} {r s : List Char}
    (hxs : ∀ x ∈ xs, DeterminedOperand level leaf x.2)
    (hys : ∀ y ∈ ys, Grouped level leaf y.2 ∧ y.2.IsOperand)
    (hr : EndsWhole r) (hs : EndsWhole s)
    (h : moreOperandChars xs ++ r = moreOperandChars ys ++ s) : xs = ys ∧ r = s := by
  induction xs generalizing ys with
  | nil =>
      cases ys with
      | nil => exact ⟨rfl, h⟩
      | cons y ys =>
          rw [moreOperandChars_cons] at h
          exact absurd h (hr.ne_blank _)
  | cons x xs ih =>
      cases ys with
      | nil =>
          rw [moreOperandChars_cons] at h
          exact absurd h.symm (hs.ne_blank _)
      | cons y ys =>
          obtain ⟨op, operand⟩ := x
          obtain ⟨other, otherOperand⟩ := y
          obtain ⟨hx, hxsRest⟩ := List.forall_mem_cons.mp hxs
          obtain ⟨⟨hy, hoperand⟩, hysRest⟩ := List.forall_mem_cons.mp hys
          rw [moreOperandChars_cons, moreOperandChars_cons] at h
          obtain ⟨rfl, hchars⟩ := BinaryOp.symbol_append_inj (List.cons.inj h).2
          obtain ⟨rfl, hmore⟩ := hx hy hoperand (hr.moreOperandChars_append xs)
            (hs.moreOperandChars_append ys) hchars
          obtain ⟨rfl, hrest⟩ := ih hxsRest hysRest hmore
          exact ⟨rfl, hrest⟩

omit hleaf in
/-- A grouped tree is determined when its operands are. -/
theorem Grouped.determined_of_operands {e : Expr} (he : Grouped level leaf e)
    (h : ∀ operand ∈ e.operands, DeterminedOperand level leaf operand) :
    Determined level leaf e := by
  intro f r s hf hr hs heq
  obtain ⟨hfirst, hmore⟩ := List.forall_mem_cons.mp h
  obtain ⟨⟨hfirstOther, hoperand⟩, hmoreOther⟩ := List.forall_mem_cons.mp hf.operands
  rw [chars_eq_operandChars e, chars_eq_operandChars f, List.append_assoc,
    List.append_assoc] at heq
  obtain ⟨hfirsts, hchars⟩ := hfirst hfirstOther hoperand (hr.moreOperandChars_append _)
    (hs.moreOperandChars_append _) heq
  obtain ⟨hmores, hrest⟩ := moreOperandChars_inj (List.forall_mem_map.mp hmore)
    (List.forall_mem_map.mp hmoreOther) hr hs hchars
  exact ⟨he.eq_of_operands hf hfirsts hmores, hrest⟩

theorem determinedOperand_paren {inner : Expr} (h : Determined level leaf inner) :
    DeterminedOperand level leaf (.paren inner) := by
  intro f r s hf hoperand _ _ heq
  rcases hf.operand_cases hoperand with hbare | ⟨op, operand, rfl, _, _⟩ | ⟨other, rfl, hother⟩
  · exact absurd heq.symm (hbare.append_ne_paren hleaf inner s r)
  · exact absurd heq.symm (unary_append_ne_paren op operand inner s r)
  · rw [chars_paren_append, chars_paren_append] at heq
    obtain ⟨rfl, hclose⟩ := h hother (.close r) (.close s) (List.cons.inj heq).2
    exact ⟨rfl, (List.cons.inj hclose).2⟩

omit hleaf in
theorem moreArgChars_inj {xs ys : List Expr} {r s : List Char}
    (hxs : ∀ x ∈ xs, Determined level leaf x) (hys : ∀ y ∈ ys, Grouped level leaf y)
    (h : moreArgChars xs ++ ')' :: r = moreArgChars ys ++ ')' :: s) : xs = ys ∧ r = s := by
  induction xs generalizing ys with
  | nil =>
      cases ys with
      | nil => exact ⟨rfl, (List.cons.inj h).2⟩
      | cons y ys => exact absurd (List.cons.inj h).1 (by decide)
  | cons x xs ih =>
      cases ys with
      | nil => exact absurd (List.cons.inj h).1 (by decide)
      | cons y ys =>
          obtain ⟨hx, hxsRest⟩ := List.forall_mem_cons.mp hxs
          obtain ⟨hy, hysRest⟩ := List.forall_mem_cons.mp hys
          simp only [moreArgChars, List.cons_append, List.cons.injEq, true_and,
            List.append_assoc] at h
          obtain ⟨rfl, hmore⟩ := hx hy (EndsWhole.moreArgChars_append (.close r) xs)
            (EndsWhole.moreArgChars_append (.close s) ys) h
          obtain ⟨rfl, hrest⟩ := ih hxsRest hysRest hmore
          exact ⟨rfl, hrest⟩

/-- No expression starts like the end of a call. -/
theorem Grouped.append_ne_close {e : Expr} (h : Grouped level leaf e) (r s : List Char) :
    e.chars ++ r ≠ ')' :: s := by
  rw [chars_eq_operandChars, List.append_assoc]
  obtain ⟨hfirst, hoperand⟩ := h.operands e.firstOperand List.mem_cons_self
  rcases hfirst.operand_cases hoperand with hbare | ⟨op, operand, hunary, _⟩ | ⟨inner, hparen, _⟩
  · exact hbare.chars_append_ne hleaf (by decide) _ _
  · obtain ⟨mark, _, hchars, _, _, hclose⟩ := chars_unary op operand
    rw [hunary, hchars]
    intro heq
    exact hclose (List.cons.inj heq).1
  · rw [hparen, chars_paren_append]
    simp

theorem argChars_inj {xs ys : List Expr} {r s : List Char}
    (hgrouped : ∀ x ∈ xs, Grouped level leaf x) (hxs : ∀ x ∈ xs, Determined level leaf x)
    (hys : ∀ y ∈ ys, Grouped level leaf y)
    (h : argChars xs ++ ')' :: r = argChars ys ++ ')' :: s) : xs = ys ∧ r = s := by
  cases xs with
  | nil =>
      cases ys with
      | nil => exact ⟨rfl, (List.cons.inj h).2⟩
      | cons y ys =>
          rw [argChars, argChars, List.append_assoc] at h
          exact absurd h.symm ((hys y List.mem_cons_self).append_ne_close hleaf _ _)
  | cons x xs =>
      obtain ⟨hgroupedFirst, _⟩ := List.forall_mem_cons.mp hgrouped
      obtain ⟨hx, hxsRest⟩ := List.forall_mem_cons.mp hxs
      cases ys with
      | nil =>
          rw [argChars, argChars, List.append_assoc] at h
          exact absurd h (hgroupedFirst.append_ne_close hleaf _ _)
      | cons y ys =>
          obtain ⟨hy, hysRest⟩ := List.forall_mem_cons.mp hys
          rw [argChars, argChars, List.append_assoc, List.append_assoc] at h
          obtain ⟨rfl, hmore⟩ := hx hy (EndsWhole.moreArgChars_append (.close r) xs)
            (EndsWhole.moreArgChars_append (.close s) ys) h
          obtain ⟨rfl, hrest⟩ := moreArgChars_inj hxsRest hysRest hmore
          exact ⟨rfl, hrest⟩

theorem determinedOperand_call {name : String} {args : List Expr}
    (hname : isPlainIdentifier name.toList = true)
    (hgrouped : ∀ arg ∈ args, Grouped level leaf arg)
    (hargs : ∀ arg ∈ args, Determined level leaf arg) :
    DeterminedOperand level leaf (.call name args) := by
  intro f r s hf hoperand hr hs heq
  have hbare : Bare level leaf (.call name args) := .call hname hgrouped
  rcases hf.operand_cases hoperand with hbareOther | ⟨op, operand, rfl, _, _⟩ | ⟨inner, rfl, _⟩
  · cases hbareOther with
    | leaf hf =>
        rw [chars_call_append] at heq
        exact absurd heq.symm (hleaf.ne_call hf hname hs)
    | @call other otherArgs hother hotherArgs =>
        rw [chars_call_append, chars_call_append] at heq
        obtain ⟨hnames, hparens⟩ := plainIdentifier_append_inj hname hother
          (stopsIdentifier_open _) (stopsIdentifier_open _) heq
        obtain rfl := String.toList_inj.mp hnames
        obtain ⟨rfl, hrest⟩ := argChars_inj hleaf hgrouped hargs hotherArgs
          (List.cons.inj hparens).2
        exact ⟨rfl, hrest⟩
  · exact absurd heq (hbare.append_ne_unary hleaf op operand r s)
  · exact absurd heq (hbare.append_ne_paren hleaf inner r s)

/-- All operands of a grouped tree are determined, by induction on the tree. -/
theorem Grouped.determinedOperands {e : Expr} (h : Grouped level leaf e) :
    ∀ operand ∈ e.operands, DeterminedOperand level leaf operand := by
  have single {e : Expr} (hdetermined : DeterminedOperand level leaf e) (hoperand : e.IsOperand) :
      ∀ operand ∈ e.operands, DeterminedOperand level leaf operand := by
    rw [hoperand.operands_eq]
    intro operand hmem
    obtain rfl := List.mem_singleton.mp hmem
    exact hdetermined
  induction h with
  | field h => exact single (determinedOperand_leaf hleaf h) (by simp [IsOperand])
  | literal h => exact single (determinedOperand_leaf hleaf h) (by simp [IsOperand])
  | wildcard h => exact single (determinedOperand_leaf hleaf h) (by simp [IsOperand])
  | call hname hargs ih =>
      have hdetermined := determinedOperand_call hleaf hname hargs
        fun arg harg => (hargs arg harg).determined_of_operands (ih arg harg)
      exact single hdetermined (by simp [IsOperand])
  | binary hlhs hrhs _ _ ihLeft ihRight =>
      rw [operands_binary]
      intro operand hmem
      rcases List.mem_append.mp hmem with hmem | hmem
      · exact ihLeft operand hmem
      · exact ihRight operand hmem
  | unary _ hoperand ih =>
      have hdetermined := ih _ (by rw [hoperand.operands_eq]; exact List.mem_singleton_self _)
      exact single (determinedOperand_unary hleaf hdetermined) (by simp [IsOperand])
  | paren h ih =>
      have hdetermined := determinedOperand_paren hleaf (h.determined_of_operands ih)
      exact single hdetermined (by simp [IsOperand])

/-- A grouped tree is the only grouped tree with its script. -/
theorem Grouped.script_inj {e f : Expr} (he : Grouped level leaf e) (hf : Grouped level leaf f)
    (h : e.script = f.script) : e = f := by
  have hchars : e.chars ++ [] = f.chars ++ [] := by
    rw [← toList_script, ← toList_script, h]
  exact (he.determined_of_operands (he.determinedOperands hleaf) hf .nil .nil hchars).1

end Reading

end Expr

end AggQuery
