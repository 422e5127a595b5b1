import AggQuery.Expr.Script

/-!
# Operator chains

A script knows no precedence, so what it shows of a tree is its chain: the operands that
are no binary expressions, with the operators between them. A tree is the only one with
its chain among those that one table of levels groups.

## Implementation notes

Only the table's order matters. Operators of one level are grouped from the left, so a
right operand is of a higher level than its operator.
-/

namespace AggQuery

namespace Expr

/-- The operand before all binary operators. -/
def firstOperand : Expr → Expr
  | .binary _ lhs _ => lhs.firstOperand
  | e => e

/-- The operators in order, each with the operand behind it. -/
def moreOperands : Expr → List (BinaryOp × Expr)
  | .binary op lhs rhs => lhs.moreOperands ++ (op, rhs.firstOperand) :: rhs.moreOperands
  | _ => []

/-- The operands of a chain, in order. -/
def operands (e : Expr) : List Expr := e.firstOperand :: e.moreOperands.map Prod.snd

/-- The operators of a chain, in order. -/
def operators (e : Expr) : List BinaryOp := e.moreOperands.map Prod.fst

/-- The characters of the operators and the operands behind them. -/
def moreOperandChars (more : List (BinaryOp × Expr)) : List Char :=
  more.flatMap fun (op, operand) => ' ' :: op.symbol.toList ++ ' ' :: operand.chars

theorem moreOperandChars_cons (op : BinaryOp) (operand : Expr) (more : List (BinaryOp × Expr))
    (rest : List Char) :
    moreOperandChars ((op, operand) :: more) ++ rest =
      ' ' :: (op.symbol.toList ++ ' ' ::
        (operand.chars ++ (moreOperandChars more ++ rest))) := by
  simp [moreOperandChars]

/-- The node is no operator with two operands. -/
def IsOperand (e : Expr) : Prop := ∀ op lhs rhs, e ≠ .binary op lhs rhs

theorem operands_binary (op : BinaryOp) (lhs rhs : Expr) :
    (binary op lhs rhs).operands = lhs.operands ++ rhs.operands := by
  simp [operands, firstOperand, moreOperands]

theorem operators_binary (op : BinaryOp) (lhs rhs : Expr) :
    (binary op lhs rhs).operators = lhs.operators ++ op :: rhs.operators := by
  simp [operators, moreOperands]

theorem IsOperand.firstOperand_eq {e : Expr} (h : e.IsOperand) : e.firstOperand = e := by
  cases e with
  | binary op lhs rhs => exact absurd rfl (h op lhs rhs)
  | _ => rfl

theorem IsOperand.moreOperands_eq {e : Expr} (h : e.IsOperand) : e.moreOperands = [] := by
  cases e with
  | binary op lhs rhs => exact absurd rfl (h op lhs rhs)
  | _ => rfl

theorem IsOperand.operands_eq {e : Expr} (h : e.IsOperand) : e.operands = [e] := by
  rw [operands, h.firstOperand_eq, h.moreOperands_eq, List.map_nil]

/-- A script is the script of its chain. -/
theorem chars_eq_operandChars (e : Expr) :
    e.chars = e.firstOperand.chars ++ moreOperandChars e.moreOperands := by
  induction e using moreOperands.induct with
  | case1 op lhs rhs ihLeft ihRight =>
      rw [chars, ihLeft, ihRight, firstOperand, moreOperands]
      simp [moreOperandChars]
  | case2 e h =>
      have hoperand : e.IsOperand := h
      rw [hoperand.firstOperand_eq, hoperand.moreOperands_eq]
      simp [moreOperandChars]

/-- A binary expression has an operator of at least this level. -/
def AtLeast (level : BinaryOp → Nat) (least : Nat) (e : Expr) : Prop :=
  ∀ op lhs rhs, e = .binary op lhs rhs → least ≤ level op

theorem IsOperand.atLeast {e : Expr} (h : e.IsOperand) (level : BinaryOp → Nat) (least : Nat) :
    e.AtLeast level least :=
  fun op lhs rhs he => absurd he (h op lhs rhs)

/-- The operators of the tree are grouped the way a table of levels groups them, unless
parentheses or a call enclose them. Every leaf has the property `leaf`, and every call the
name of a plain identifier. -/
inductive Grouped (level : BinaryOp → Nat) (leaf : Expr → Prop) : Expr → Prop
  | field {name : String} (h : leaf (.field name)) : Grouped level leaf (.field name)
  | literal {value : Literal} (h : leaf (.literal value)) : Grouped level leaf (.literal value)
  | wildcard (h : leaf .wildcard) : Grouped level leaf .wildcard
  | call {name : String} {args : List Expr} (hname : isPlainIdentifier name.toList = true)
      (hargs : ∀ arg ∈ args, Grouped level leaf arg) : Grouped level leaf (.call name args)
  | binary {op : BinaryOp} {lhs rhs : Expr} (hlhs : Grouped level leaf lhs)
      (hrhs : Grouped level leaf rhs) (hleft : lhs.AtLeast level (level op))
      (hright : rhs.AtLeast level (level op + 1)) : Grouped level leaf (.binary op lhs rhs)
  | unary {op : UnaryOp} {operand : Expr} (h : Grouped level leaf operand)
      (hoperand : operand.IsOperand) : Grouped level leaf (.unary op operand)
  | paren {inner : Expr} (h : Grouped level leaf inner) : Grouped level leaf (.paren inner)

namespace Grouped

variable {level : BinaryOp → Nat} {leaf : Expr → Prop}

/-- The operands of a grouped tree are grouped, and no binary expressions. -/
theorem operands {e : Expr} (h : Grouped level leaf e) :
    ∀ operand ∈ e.operands, Grouped level leaf operand ∧ operand.IsOperand := by
  induction e using moreOperands.induct with
  | case1 op lhs rhs ihLeft ihRight =>
      cases h with
      | binary hlhs hrhs _ _ =>
          rw [operands_binary]
          intro operand hoperand
          rcases List.mem_append.mp hoperand with hoperand | hoperand
          · exact ihLeft hlhs operand hoperand
          · exact ihRight hrhs operand hoperand
  | case2 e hoperand =>
      rw [IsOperand.operands_eq hoperand]
      intro operand hmem
      obtain rfl := List.mem_singleton.mp hmem
      exact ⟨h, hoperand⟩

/-- No operator of the chain is of a lower level than the root. -/
theorem le_level_of_mem {e : Expr} (h : Grouped level leaf e) {least : Nat}
    (hleast : e.AtLeast level least) : ∀ op ∈ e.operators, least ≤ level op := by
  induction e using moreOperands.induct generalizing least with
  | case1 root lhs rhs ihLeft ihRight =>
      cases h with
      | binary hlhs hrhs hleft hright =>
          have hroot : least ≤ level root := hleast root lhs rhs rfl
          rw [operators_binary]
          intro op hop
          rcases List.mem_append.mp hop with hop | hop
          · exact Nat.le_trans hroot (ihLeft hlhs hleft op hop)
          · rcases List.mem_cons.mp hop with rfl | hop
            · exact hroot
            · have habove := ihRight hrhs hright op hop
              omega
  | case2 e hoperand =>
      have hnone : e.operators = [] := by rw [operators, IsOperand.moreOperands_eq hoperand]; rfl
      simp [hnone]

section Root

variable {op other : BinaryOp} {lhs rhs otherLhs otherRhs : Expr}

/-- With one root left of the other in two trees, the other cannot be right of it: it would
have to be of a lower level there and is of at least its level here. -/
theorem root_not_left (h : Grouped level leaf (.binary op lhs rhs))
    (hother : Grouped level leaf (.binary other otherLhs otherRhs))
    (hleft : op ∈ otherLhs.operators) : other ∉ rhs.operators := by
  intro hright
  cases h with
  | binary _ hrhs _ hrhsLevel =>
      cases hother with
      | binary hlhs _ hlhsLevel _ =>
          have hle : level other ≤ level op := hlhs.le_level_of_mem hlhsLevel op hleft
          have hlt : level op + 1 ≤ level other := hrhs.le_level_of_mem hrhsLevel other hright
          omega

/-- Grouped trees with one chain have their roots at one place of it. -/
theorem moreOperands_lhs_eq (h : Grouped level leaf (.binary op lhs rhs))
    (hother : Grouped level leaf (.binary other otherLhs otherRhs))
    (hmore : (Expr.binary op lhs rhs).moreOperands =
      (Expr.binary other otherLhs otherRhs).moreOperands) :
    lhs.moreOperands = otherLhs.moreOperands := by
  rw [moreOperands, moreOperands, List.append_eq_append_iff] at hmore
  rcases hmore with ⟨between, hleft, hright⟩ | ⟨between, hleft, hright⟩
  · cases between with
    | nil => simpa using hleft.symm
    | cons root between =>
        obtain ⟨rfl, hrights⟩ := List.cons.inj hright
        exact absurd (by simp [operators, hrights])
          (root_not_left h hother (by simp [operators, hleft]))
  · cases between with
    | nil => simpa using hleft
    | cons root between =>
        obtain ⟨rfl, hrights⟩ := List.cons.inj hright
        exact absurd (by simp [operators, hrights])
          (root_not_left hother h (by simp [operators, hleft]))

end Root

/-- A grouped tree is the only one with its chain. -/
theorem eq_of_operands {e f : Expr} (he : Grouped level leaf e) (hf : Grouped level leaf f)
    (hfirst : e.firstOperand = f.firstOperand) (hmore : e.moreOperands = f.moreOperands) :
    e = f := by
  induction e using moreOperands.induct generalizing f with
  | case1 op lhs rhs ihLeft ihRight =>
      cases f with
      | binary other otherLhs otherRhs =>
          have hlefts := moreOperands_lhs_eq he hf hmore
          rw [moreOperands, moreOperands, hlefts] at hmore
          obtain ⟨hroot, hrights⟩ := List.cons.inj (List.append_cancel_left hmore)
          obtain ⟨rfl, hfirsts⟩ := Prod.mk.inj hroot
          cases he with
          | binary hlhs hrhs _ _ =>
              cases hf with
              | binary hotherLhs hotherRhs _ _ =>
                  rw [ihLeft hlhs hotherLhs hfirst hlefts,
                    ihRight hrhs hotherRhs hfirsts hrights]
      | _ => simp [moreOperands] at hmore
  | case2 e hoperand =>
      have he' : e.IsOperand := hoperand
      have hf' : f.IsOperand := by
        rintro op lhs rhs rfl
        simp [he'.moreOperands_eq, moreOperands] at hmore
      rw [← he'.firstOperand_eq, hfirst, hf'.firstOperand_eq]

end Grouped

end Expr

end AggQuery
