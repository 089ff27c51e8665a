import BlockScript.Token.Basic

/-!
# Syntax errors

What the user is told about a text that is not a program: a line, a place on it
and a sentence. Faults found while cutting the text into tokens have no token to
point at; all others are blamed on a token, or on the end of the text.
-/
namespace BlockScript

inductive Location where
  | unknown
  | atEnd
  | lexeme (text : String)
  deriving DecidableEq, Repr

/-- The words that point at a location, ready to follow the word "Error". -/
def Location.text : Location → String
  | unknown => ""
  | atEnd => " at end"
  | lexeme text => " at '" ++ text ++ "'"

structure SyntaxError where
  line : Nat
  location : Location
  message : String
  deriving DecidableEq, Repr

namespace SyntaxError

def onLine (line : Nat) (message : String) : SyntaxError :=
  ⟨line, .unknown, message⟩

def atToken (token : Token) (message : String) : SyntaxError :=
  ⟨token.line, if token.isEnd then .atEnd else .lexeme token.lexeme, message⟩

def text (error : SyntaxError) : String :=
  "[line " ++ Nat.repr error.line ++ "] Error" ++ error.location.text ++ ": " ++ error.message

end SyntaxError
end BlockScript
