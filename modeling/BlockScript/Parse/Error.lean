import BlockScript.SyntaxError

/-!
# Errors of the grammar

A parse error is a fault blamed on a token. All faults but one spoil the declaration
in which they are found; a bad assignment target is reported, and the assignment
counts as its left side.
-/
namespace BlockScript.Parse

/-- What the grammar demands at a place. -/
inductive Expectation where
  | variableName
  | semicolonAfterDeclaration
  | parenAfterIf
  | parenAfterCondition
  | semicolonAfterValue
  | braceAfterBlock
  | semicolonAfterExpression
  | parenAfterExpression
  deriving DecidableEq, Repr

inductive Fault where
  | missing (expected : Expectation)
  | noExpression
  | badTarget
  deriving DecidableEq, Repr

structure Error where
  fault : Fault
  token : Token
  deriving DecidableEq

def Expectation.message : Expectation → String
  | variableName => "Expect variable name."
  | semicolonAfterDeclaration => "Expect ';' after variable declaration."
  | parenAfterIf => "Expect '(' after 'if'."
  | parenAfterCondition => "Expect ')' after if condition."
  | semicolonAfterValue => "Expect ';' after value."
  | braceAfterBlock => "Expect '\x7d' after block."
  | semicolonAfterExpression => "Expect ';' after expression."
  | parenAfterExpression => "Expect ')' after expression."

namespace Fault

def message : Fault → String
  | missing expected => expected.message
  | noExpression => "Expect expression."
  | badTarget => "Invalid assignment target."

/-- Whether the fault spoils the declaration in which it is found. -/
def isFatal : Fault → Bool
  | badTarget => false
  | _ => true

end Fault

def Error.report (error : Error) : SyntaxError :=
  .atToken error.token error.fault.message

end BlockScript.Parse
