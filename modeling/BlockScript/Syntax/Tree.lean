import BlockScript.Syntax.Value

/-!
# Syntax trees

Expressions and statements. A tree keeps the tokens that a runtime error can be
blamed on: operators, names and the keyword of each print statement. Parentheses of
the source are kept as `group` nodes, so a tree can be written out again without
adding any.
-/
namespace BlockScript

/-- An expression. `binary` operators evaluate both operands, `logical` ones may
stop after the left. -/
inductive Expr where
  | assign (name : Token) (value : Expr)
  | binary (left : Expr) (operator : Token) (right : Expr)
  | group (inner : Expr)
  | literal (value : Value)
  | logical (left : Expr) (operator : Token) (right : Expr)
  | unary (operator : Token) (operand : Expr)
  | lookup (name : Token)
  deriving DecidableEq

inductive Stmt where
  | block (body : List Stmt)
  | expression (value : Expr)
  | ifThen (condition : Expr) (consequent : Stmt)
  | ifElse (condition : Expr) (consequent alternative : Stmt)
  | print (keyword : Token) (value : Expr)
  | var (name : Token) (initializer : Option Expr)

abbrev Program := List Stmt

def Expr.size : Expr → Nat
  | .assign _ value => value.size + 1
  | .binary left _ right => left.size + right.size + 1
  | .group inner => inner.size + 1
  | .literal _ => 1
  | .logical left _ right => left.size + right.size + 1
  | .unary _ operand => operand.size + 1
  | .lookup _ => 1

mutual

def Stmt.size : Stmt → Nat
  | .block body => Stmt.sizeAll body + 1
  | .expression value => value.size + 1
  | .ifThen condition consequent => condition.size + consequent.size + 1
  | .ifElse condition consequent alternative =>
    condition.size + consequent.size + alternative.size + 1
  | .print _ value => value.size + 1
  | .var _ none => 1
  | .var _ (some initializer) => initializer.size + 1

/-- The number of nodes of a list of statements, the list's own among them. -/
def Stmt.sizeAll : List Stmt → Nat
  | [] => 1
  | first :: rest => first.size + Stmt.sizeAll rest + 1

end

/-- The expression that a statement is headed by, if it is headed by one. -/
def Stmt.expression? : Stmt → Option Expr
  | .block _ => none
  | .expression value => some value
  | .ifThen condition _ => some condition
  | .ifElse condition _ _ => some condition
  | .print _ value => some value
  | .var _ initializer => initializer

end BlockScript
