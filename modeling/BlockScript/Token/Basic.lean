import BlockScript.Token.Kind

/-!
# Tokens

A token keeps the text it was cut from and the line on which that text ends, so
that an error can be blamed on it. Number and string tokens carry their value as
well. `==` compares numbers as IEEE doubles: a token that carries NaN differs from
itself, and zero equals negative zero. Propositional equality tells every two
different numbers apart.
-/
namespace BlockScript

/-- The value that a number or string token carries. -/
inductive Literal where
  | number (value : Float)
  | string (value : String)
  deriving BEq, DecidableEq

/-- One word of a program. -/
structure Token where
  kind : TokenKind
  lexeme : String
  literal : Option Literal
  line : Nat
  deriving BEq, DecidableEq

namespace Token

/-- The mark after the last token of a text that ends on `line`. -/
def endOfInput (line : Nat) : Token :=
  ⟨.endOfInput, "", none, line⟩

def isEnd (token : Token) : Bool :=
  token.kind = .endOfInput

@[simp] theorem isEnd_endOfInput (line : Nat) : (endOfInput line).isEnd = true := rfl

end Token
end BlockScript
