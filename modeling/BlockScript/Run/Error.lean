import BlockScript.Token.Basic

/-!
# Runtime errors

What can go wrong while a program runs, and the token that it is blamed on.
-/
namespace BlockScript

inductive RuntimeFault where
  | operandMustBeNumber
  | operandsMustBeNumbers
  | operandsMustBeNumbersOrStrings
  | undefinedVariable (name : String)
  | output (reason : String)
  deriving DecidableEq, Repr

def RuntimeFault.message : RuntimeFault → String
  | operandMustBeNumber => "Operand must be a number."
  | operandsMustBeNumbers => "Operands must be numbers."
  | operandsMustBeNumbersOrStrings => "Operands must be two numbers or two strings."
  | undefinedVariable name => "Undefined variable '" ++ name ++ "'."
  | output reason => "Could not write output: " ++ reason

/-- An error that stops a run. The token is the operator, the name or the print keyword
at fault. -/
structure RuntimeError where
  fault : RuntimeFault
  token : Token
  deriving DecidableEq

namespace RuntimeError

def undefined (name : Token) : RuntimeError :=
  ⟨.undefinedVariable name.lexeme, name⟩

def text (error : RuntimeError) : String :=
  error.fault.message ++ "\n[line " ++ Nat.repr error.token.line ++ "]"

end RuntimeError
end BlockScript
