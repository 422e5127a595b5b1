import AggQuery.Number.Binary64

/-!
# Expressions

The expressions of a query: field references, constants, calls, operators, parentheses and
the wildcard. Nothing is evaluated here; an expression is only written, compared and taken
apart.

## Implementation notes

`Expr.sameAs` compares floating-point constants as numbers, so an expression that holds a
constant which is no number is not the same as itself. Propositional equality is decidable
too (`Expr.decEq`) and compares words.
-/

namespace AggQuery

/-- A constant. -/
inductive Literal where
  | string (s : String)
  | integer (n : Int64)
  | float (x : Binary64)
  | boolean (b : Bool)
  /-- A duration or calendar interval such as `1d`. -/
  | duration (text : String)
  | null
deriving DecidableEq, Inhabited, Repr

/-- An operator with two operands. -/
inductive BinaryOp where
  | add | sub | mul | div | rem | eq | neq | lt | lte | gt | gte | and | or
deriving DecidableEq, Inhabited, Repr

/-- An operator with one operand. -/
inductive UnaryOp where
  | not | neg
deriving DecidableEq, Inhabited, Repr

/-- An expression tree. -/
inductive Expr where
  | field (name : String)
  | literal (value : Literal)
  | call (name : String) (args : List Expr)
  | binary (op : BinaryOp) (lhs rhs : Expr)
  | unary (op : UnaryOp) (operand : Expr)
  | paren (inner : Expr)
  | wildcard
deriving Inhabited, Repr

namespace BinaryOp

/-- All operators, in the order in which messages list them. -/
def all : List BinaryOp :=
  [.add, .sub, .mul, .div, .rem, .eq, .neq, .lt, .lte, .gt, .gte, .and, .or]

/-- The name of an operator in query documents. -/
def name : BinaryOp → String
  | .add => "add"
  | .sub => "sub"
  | .mul => "mul"
  | .div => "div"
  | .rem => "rem"
  | .eq => "eq"
  | .neq => "neq"
  | .lt => "lt"
  | .lte => "lte"
  | .gt => "gt"
  | .gte => "gte"
  | .and => "and"
  | .or => "or"

/-- The operator in scripts. -/
def symbol : BinaryOp → String
  | .add => "+"
  | .sub => "-"
  | .mul => "*"
  | .div => "/"
  | .rem => "%"
  | .eq => "=="
  | .neq => "!="
  | .lt => "<"
  | .lte => "<="
  | .gt => ">"
  | .gte => ">="
  | .and => "&&"
  | .or => "||"

/-- The operator with a name. -/
def ofName? (name : String) : Option BinaryOp := all.find? fun op => op.name == name

theorem mem_all (op : BinaryOp) : op ∈ all := by cases op <;> decide

theorem ofName?_name (op : BinaryOp) : ofName? op.name = some op := by
  cases op <;> decide

end BinaryOp

namespace UnaryOp

/-- All operators, in the order in which messages list them. -/
def all : List UnaryOp := [.not, .neg]

/-- The name of an operator in query documents. -/
def name : UnaryOp → String
  | .not => "not"
  | .neg => "neg"

/-- The operator in scripts. -/
def symbol : UnaryOp → String
  | .not => "!"
  | .neg => "-"

/-- The operator with a name. -/
def ofName? (name : String) : Option UnaryOp := all.find? fun op => op.name == name

theorem mem_all (op : UnaryOp) : op ∈ all := by cases op <;> decide

theorem ofName?_name (op : UnaryOp) : ofName? op.name = some op := by
  cases op <;> decide

end UnaryOp

namespace Literal

/-- Equality of constants, floating-point ones as numbers. -/
def sameAs : Literal → Literal → Bool
  | .float x, .float y => x.equals y
  | a, b => a == b

end Literal

namespace Expr

/-- Both conditions together. -/
def conj (a b : Expr) : Expr := .binary .and a b

/-- The opposite condition. -/
def negate (e : Expr) : Expr := .unary .not e

/-- Name and arguments of a call. -/
def asCall? : Expr → Option (String × List Expr)
  | .call name args => some (name, args)
  | _ => none

mutual

/-- Equality of expressions, floating-point constants as numbers. -/
def sameAs : Expr → Expr → Bool
  | .field a, .field b => a == b
  | .literal a, .literal b => a.sameAs b
  | .call f xs, .call g ys => f == g && sameArgs xs ys
  | .binary o a b, .binary p c d => o == p && sameAs a c && sameAs b d
  | .unary o a, .unary p b => o == p && sameAs a b
  | .paren a, .paren b => sameAs a b
  | .wildcard, .wildcard => true
  | _, _ => false

/-- Equality of argument lists, floating-point constants as numbers. -/
def sameArgs : List Expr → List Expr → Bool
  | [], [] => true
  | x :: xs, y :: ys => sameAs x y && sameArgs xs ys
  | _, _ => false

end

mutual

/-- Whether two expressions are one and the same. -/
def identical : Expr → Expr → Bool
  | .field a, .field b => a == b
  | .literal a, .literal b => a == b
  | .call f xs, .call g ys => f == g && identicalArgs xs ys
  | .binary o a b, .binary p c d => o == p && identical a c && identical b d
  | .unary o a, .unary p b => o == p && identical a b
  | .paren a, .paren b => identical a b
  | .wildcard, .wildcard => true
  | _, _ => false

/-- Whether two argument lists are one and the same. -/
def identicalArgs : List Expr → List Expr → Bool
  | [], [] => true
  | x :: xs, y :: ys => identical x y && identicalArgs xs ys
  | _, _ => false

end

mutual

theorem identical_iff : ∀ a b : Expr, identical a b = true ↔ a = b
  | .field _, b => by cases b <;> simp [identical]
  | .literal _, b => by cases b <;> simp [identical]
  | .call _ xs, b => by
      cases b <;> simp [identical, identicalArgs_iff xs]
  | .binary _ l r, b => by
      cases b <;> simp [identical, identical_iff l, identical_iff r, and_assoc]
  | .unary _ e, b => by cases b <;> simp [identical, identical_iff e]
  | .paren e, b => by cases b <;> simp [identical, identical_iff e]
  | .wildcard, b => by cases b <;> simp [identical]

theorem identicalArgs_iff : ∀ xs ys : List Expr, identicalArgs xs ys = true ↔ xs = ys
  | [], ys => by cases ys <;> simp [identicalArgs]
  | x :: xs, ys => by
      cases ys <;> simp [identicalArgs, identical_iff x, identicalArgs_iff xs]

end

instance : DecidableEq Expr := fun a b => decidable_of_iff _ (identical_iff a b)

end Expr

end AggQuery
