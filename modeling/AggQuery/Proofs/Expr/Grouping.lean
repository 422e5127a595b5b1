import AggQuery.Proofs.Expr.Readable

/-!
# What a script says about grouping

Two trees over plain fields have one script exactly when one can be regrouped into the
other: operators side by side change which of them is the root, and a prefix operator moves
between a binary expression and its left operand. Parentheses stay where they are.

## Implementation notes

Every tree can be regrouped into a left comb, where no right operand is a binary
expression. Left combs are the trees that a table with one level groups, so unique
readability makes equal the left combs of two trees with one script.
-/

namespace AggQuery

namespace Expr

/-- A field whose name stands bare. -/
def IsPlainField (e : Expr) : Prop :=
  ∃ name, e = .field name ∧ isPlainIdentifier name.toList = true

theorem IsPlainField.chars_eq {name : String} (h : isPlainIdentifier name.toList = true) :
    (field name).chars = name.toList := by
  rw [chars, fieldChars, if_pos h]

theorem selfDelimiting_isPlainField : SelfDelimiting IsPlainField where
  head := by
    rintro e ⟨name, rfl, h⟩
    rw [IsPlainField.chars_eq h]
    obtain ⟨c, rest, hname, hstart⟩ := exists_start_of_plain h
    exact ⟨c, rest, hname, isIdentifierStart_notMem_marks hstart⟩
  unique := by
    rintro e f r s ⟨name, rfl, hname⟩ ⟨other, rfl, hother⟩ hr hs h
    rw [IsPlainField.chars_eq hname, IsPlainField.chars_eq hother] at h
    obtain ⟨hnames, hrest⟩ := plainIdentifier_append_inj hname hother hr.stopsIdentifier
      hs.stopsIdentifier h
    obtain rfl := String.toList_inj.mp hnames
    exact ⟨rfl, hrest⟩
  ne_call := by
    rintro e call r s ⟨name, rfl, hname⟩ hcall hr h
    rw [IsPlainField.chars_eq hname] at h
    obtain ⟨_, hrest⟩ := plainIdentifier_append_inj hname hcall hr.stopsIdentifier
      (stopsIdentifier_open s) h
    have hopen := hr '(' (by rw [hrest]; rfl)
    simp at hopen

/-- Operators and parentheses over plain fields. -/
inductive OverPlainFields : Expr → Prop
  | field {name : String} (h : isPlainIdentifier name.toList = true) :
      OverPlainFields (.field name)
  | binary {op : BinaryOp} {lhs rhs : Expr} (hlhs : OverPlainFields lhs)
      (hrhs : OverPlainFields rhs) : OverPlainFields (.binary op lhs rhs)
  | unary {op : UnaryOp} {operand : Expr} (h : OverPlainFields operand) :
      OverPlainFields (.unary op operand)
  | paren {inner : Expr} (h : OverPlainFields inner) : OverPlainFields (.paren inner)

mutual

/-- The tree without its parentheses. -/
def eraseParens : Expr → Expr
  | .paren inner => inner.eraseParens
  | .binary op lhs rhs => .binary op lhs.eraseParens rhs.eraseParens
  | .unary op operand => .unary op operand.eraseParens
  | .call name args => .call name (eraseParensArgs args)
  | e => e

/-- The arguments without their parentheses. -/
def eraseParensArgs : List Expr → List Expr
  | [] => []
  | arg :: args => arg.eraseParens :: eraseParensArgs args

end

/-- A product with a sum as its left factor, without parentheses. -/
def productOfSum : Expr :=
  .binary .mul (.binary .add (.field "a") (.field "b")) (.field "c")

/-- A sum with a product as its right term. -/
def sumWithProduct : Expr :=
  .binary .add (.field "a") (.binary .mul (.field "b") (.field "c"))

theorem overPlainFields_productOfSum : OverPlainFields productOfSum :=
  .binary (.binary (.field (by decide)) (.field (by decide))) (.field (by decide))

theorem overPlainFields_sumWithProduct : OverPlainFields sumWithProduct :=
  .binary (.field (by decide)) (.binary (.field (by decide)) (.field (by decide)))

/-- The same script, and not the same operators even without parentheses. -/
theorem productOfSum_script_eq :
    OverPlainFields productOfSum ∧ OverPlainFields sumWithProduct ∧
      productOfSum.script = sumWithProduct.script ∧
      productOfSum.eraseParens ≠ sumWithProduct.eraseParens :=
  ⟨overPlainFields_productOfSum, overPlainFields_sumWithProduct, by decide +kernel,
    by decide +kernel⟩

/-- One tree becomes the other by regrouping operators within their parentheses. -/
inductive Regroups : Expr → Expr → Prop
  | rotate (op other : BinaryOp) (a b c : Expr) :
      Regroups (.binary other (.binary op a b) c) (.binary op a (.binary other b c))
  | slide (mark : UnaryOp) (op : BinaryOp) (a b : Expr) :
      Regroups (.unary mark (.binary op a b)) (.binary op (.unary mark a) b)
  | refl (e : Expr) : Regroups e e
  | symm {e f : Expr} (h : Regroups e f) : Regroups f e
  | trans {e f g : Expr} (h : Regroups e f) (h' : Regroups f g) : Regroups e g
  | binary {op : BinaryOp} {lhs lhs' rhs rhs' : Expr} (hlhs : Regroups lhs lhs')
      (hrhs : Regroups rhs rhs') : Regroups (.binary op lhs rhs) (.binary op lhs' rhs')
  | unary {op : UnaryOp} {operand operand' : Expr} (h : Regroups operand operand') :
      Regroups (.unary op operand) (.unary op operand')
  | paren {inner inner' : Expr} (h : Regroups inner inner') :
      Regroups (.paren inner) (.paren inner')

/-- Regrouping leaves the script. -/
theorem Regroups.chars_eq {e f : Expr} (h : Regroups e f) : e.chars = f.chars := by
  induction h with
  | rotate op other a b c => simp [chars]
  | slide mark op a b => simp [chars]
  | refl e => rfl
  | symm _ ih => exact ih.symm
  | trans _ _ ih ih' => exact ih.trans ih'
  | binary _ _ ihLeft ihRight => rw [chars, chars, ihLeft, ihRight]
  | unary _ ih => rw [chars, chars, ih]
  | paren _ ih => rw [chars, chars, ih]

/-- Put a prefix operator before the first operand. -/
def prefixFirst (mark : UnaryOp) : Expr → Expr
  | .binary op lhs rhs => .binary op (prefixFirst mark lhs) rhs
  | e => .unary mark e

/-- Put an operator and its left operand before the first operand. -/
def behindFirst (op : BinaryOp) (lhs : Expr) : Expr → Expr
  | .binary other first rhs => .binary other (behindFirst op lhs first) rhs
  | e => .binary op lhs e

/-- The tree with its operators grouped from the left. -/
def leftComb : Expr → Expr
  | .binary op lhs rhs => behindFirst op lhs.leftComb rhs.leftComb
  | .unary op operand => prefixFirst op operand.leftComb
  | .paren inner => .paren inner.leftComb
  | e => e

theorem IsOperand.prefixFirst_eq {e : Expr} (h : e.IsOperand) (mark : UnaryOp) :
    prefixFirst mark e = .unary mark e := by
  cases e with
  | binary op lhs rhs => exact absurd rfl (h op lhs rhs)
  | _ => rfl

theorem IsOperand.behindFirst_eq {e : Expr} (h : e.IsOperand) (op : BinaryOp) (lhs : Expr) :
    behindFirst op lhs e = .binary op lhs e := by
  cases e with
  | binary other first rhs => exact absurd rfl (h other first rhs)
  | _ => rfl

theorem regroups_prefixFirst (mark : UnaryOp) (e : Expr) :
    Regroups (.unary mark e) (prefixFirst mark e) := by
  induction e using firstOperand.induct with
  | case1 op lhs rhs ih => exact (Regroups.slide mark op lhs rhs).trans (.binary ih (.refl rhs))
  | case2 e hoperand =>
      rw [IsOperand.prefixFirst_eq hoperand]
      exact .refl _

theorem regroups_behindFirst (op : BinaryOp) (lhs e : Expr) :
    Regroups (.binary op lhs e) (behindFirst op lhs e) := by
  induction e using firstOperand.induct with
  | case1 other first rhs ih =>
      have hrotate : Regroups (.binary op lhs (.binary other first rhs))
          (.binary other (.binary op lhs first) rhs) :=
        (Regroups.rotate op other lhs first rhs).symm
      exact hrotate.trans (.binary ih (.refl rhs))
  | case2 e hoperand =>
      rw [IsOperand.behindFirst_eq hoperand]
      exact .refl _

/-- Every tree can be regrouped into a left comb. -/
theorem regroups_leftComb {e : Expr} (h : OverPlainFields e) : Regroups e e.leftComb := by
  induction h with
  | field _ => exact .refl _
  | binary _ _ ihLeft ihRight =>
      exact (Regroups.binary ihLeft ihRight).trans (regroups_behindFirst _ _ _)
  | unary _ ih => exact (Regroups.unary ih).trans (regroups_prefixFirst _ _)
  | paren _ ih => exact .paren ih

section LeftComb

variable {leaf : Expr → Prop}

/-- With one level, what is right of an operator is an operand. -/
theorem isOperand_of_atLeast_one {e : Expr} (h : e.AtLeast (fun _ => 0) 1) : e.IsOperand :=
  fun op lhs rhs he => absurd (h op lhs rhs he) (by simp)

theorem grouped_binary_of_isOperand {op : BinaryOp} {lhs rhs : Expr}
    (hlhs : Grouped (fun _ => 0) leaf lhs) (hrhs : Grouped (fun _ => 0) leaf rhs)
    (hoperand : rhs.IsOperand) : Grouped (fun _ => 0) leaf (.binary op lhs rhs) :=
  .binary hlhs hrhs (fun _ _ _ _ => Nat.zero_le _) (hoperand.atLeast _ _)

theorem grouped_prefixFirst {e : Expr} (h : Grouped (fun _ => 0) leaf e) (mark : UnaryOp) :
    Grouped (fun _ => 0) leaf (prefixFirst mark e) := by
  induction e using firstOperand.induct with
  | case1 op lhs rhs ih =>
      cases h with
      | binary hlhs hrhs _ hright =>
          exact grouped_binary_of_isOperand (ih hlhs) hrhs (isOperand_of_atLeast_one hright)
  | case2 e hoperand =>
      rw [IsOperand.prefixFirst_eq hoperand]
      exact .unary h hoperand

theorem grouped_behindFirst {e lhs : Expr} (h : Grouped (fun _ => 0) leaf e)
    (hlhs : Grouped (fun _ => 0) leaf lhs) (op : BinaryOp) :
    Grouped (fun _ => 0) leaf (behindFirst op lhs e) := by
  induction e using firstOperand.induct with
  | case1 other first rhs ih =>
      cases h with
      | binary hfirst hrhs _ hright =>
          exact grouped_binary_of_isOperand (ih hfirst) hrhs (isOperand_of_atLeast_one hright)
  | case2 e hoperand =>
      rw [IsOperand.behindFirst_eq hoperand]
      exact grouped_binary_of_isOperand hlhs h hoperand

end LeftComb

/-- A left comb is what a table with one level groups. -/
theorem grouped_leftComb {e : Expr} (h : OverPlainFields e) :
    Grouped (fun _ => 0) IsPlainField e.leftComb := by
  induction h with
  | field hname => exact .field ⟨_, rfl, hname⟩
  | binary _ _ ihLeft ihRight => exact grouped_behindFirst ihRight ihLeft _
  | unary _ ih => exact grouped_prefixFirst ih _
  | paren _ ih => exact .paren ih

theorem script_eq_iff_regroups {e f : Expr} (he : OverPlainFields e) (hf : OverPlainFields f) :
    e.script = f.script ↔ Regroups e f := by
  have hcomb := regroups_leftComb he
  have hotherComb := regroups_leftComb hf
  constructor
  · intro h
    have hscript : e.leftComb.script = f.leftComb.script := by
      rw [script, script, ← hcomb.chars_eq, ← hotherComb.chars_eq]
      exact h
    have hsame : e.leftComb = f.leftComb :=
      (grouped_leftComb he).script_inj selfDelimiting_isPlainField (grouped_leftComb hf) hscript
    exact hcomb.trans (hsame ▸ hotherComb.symm)
  · intro h
    rw [script, script, h.chars_eq]

/-- Scripts over plain fields are equal exactly for trees that can be regrouped into each
other, and two trees that one table of levels groups are equal if their scripts are. -/
theorem script_grouping {e f : Expr} (he : OverPlainFields e) (hf : OverPlainFields f) :
    (e.script = f.script ↔ Regroups e f) ∧
      ∀ level : BinaryOp → Nat, Grouped level IsPlainField e → Grouped level IsPlainField f →
        e.script = f.script → e = f := by
  refine ⟨script_eq_iff_regroups he hf, ?_⟩
  intro level hgrouped hotherGrouped h
  exact hgrouped.script_inj selfDelimiting_isPlainField hotherGrouped h

/-- Multiplication, division and remainder above all else. -/
def productsFirst : BinaryOp → Nat
  | .mul | .div | .rem => 1
  | _ => 0

theorem grouped_sumWithProduct : Grouped productsFirst IsPlainField sumWithProduct := by
  have hfield (name : String) (h : isPlainIdentifier name.toList = true) :
      Grouped productsFirst IsPlainField (.field name) := .field ⟨name, rfl, h⟩
  have hproduct : Grouped productsFirst IsPlainField (.binary .mul (.field "b") (.field "c")) :=
    .binary (hfield "b" (by decide)) (hfield "c" (by decide)) (by simp [AtLeast])
      (by simp [AtLeast])
  exact .binary (hfield "a" (by decide)) hproduct (by simp [AtLeast])
    (by simp [AtLeast, productsFirst])

/-- The two trees can be regrouped into each other, and a table groups only one of them. -/
theorem productOfSum_regroups :
    OverPlainFields productOfSum ∧ OverPlainFields sumWithProduct ∧
      Regroups productOfSum sumWithProduct ∧
      Grouped productsFirst IsPlainField sumWithProduct ∧
      ¬Grouped productsFirst IsPlainField productOfSum := by
  have hscript : productOfSum.script = sumWithProduct.script := by decide +kernel
  obtain ⟨hregroups, hunique⟩ :=
    script_grouping overPlainFields_productOfSum overPlainFields_sumWithProduct
  refine ⟨overPlainFields_productOfSum, overPlainFields_sumWithProduct, hregroups.mp hscript,
    grouped_sumWithProduct, ?_⟩
  intro hproduct
  have hsame := hunique productsFirst hproduct grouped_sumWithProduct hscript
  exact absurd hsame (by decide +kernel)

end Expr

end AggQuery
