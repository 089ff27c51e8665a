import BlockScript.Run.Interpreter
import BlockScript.Run.Operator
import BlockScript.Syntax.Tree

/-!
# What programs mean

The meaning of expressions and statements, by recursion on the tree. Operands are
evaluated from left to right, each once; an error anywhere stops the run.
-/
namespace BlockScript

variable {W : Type}

def Expr.eval : Expr → Run W Value
  | .assign name value => do
    let value ← value.eval
    Interpreter.assign name value
    pure value
  | .binary left operator right => do
    let left ← left.eval
    let right ← right.eval
    liftM (applyBinary operator left right)
  | .group inner => inner.eval
  | .literal value => pure value
  | .logical left operator right => do
    let left ← left.eval
    if stopsAt operator left then pure left else right.eval
  | .unary operator operand => do
    let operand ← operand.eval
    liftM (applyUnary operator operand)
  | .lookup name => Interpreter.get name

variable [Writer W]

mutual

def Stmt.exec : Stmt → Run W Unit
  | .block body => Run.inBlock (Stmt.execAll body)
  | .expression value => do
    let _ ← value.eval
    pure ()
  | .ifThen condition consequent => do
    let chosen ← condition.eval
    if chosen.isTruthy then consequent.exec else pure ()
  | .ifElse condition consequent alternative => do
    let chosen ← condition.eval
    if chosen.isTruthy then consequent.exec else alternative.exec
  | .print keyword value => do
    let value ← value.eval
    Interpreter.print keyword value
  | .var name none => Interpreter.define name.lexeme .nil
  | .var name (some initializer) => do
    let value ← initializer.eval
    Interpreter.define name.lexeme value

/-- Executes statements in order, up to the first error. -/
def Stmt.execAll : List Stmt → Run W Unit
  | [] => pure ()
  | first :: rest => do
    first.exec
    Stmt.execAll rest

end

end BlockScript
