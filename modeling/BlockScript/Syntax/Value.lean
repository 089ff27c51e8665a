import BlockScript.Number.Text
import BlockScript.Token.Basic

/-!
# Values

The values of the language are nil, the truth values, numbers and strings. A
literal in a program is the value that it stands for.

There are three notions of equality on values. Propositional equality tells all
different values apart. `==` compares numbers as IEEE doubles. `equals` is the
equality of the language, which also lets NaN equal itself.
-/
namespace BlockScript

inductive Value where
  | nil
  | bool (value : Bool)
  | number (value : Float)
  | string (value : String)
  deriving BEq, DecidableEq

namespace Value

def ofLiteral : Literal → Value
  | .number value => .number value
  | .string value => .string value

/-- Nil and false count as false; every other value counts as true, zero and the
empty string among them. -/
def isTruthy : Value → Bool
  | nil => false
  | bool value => value
  | number _ => true
  | string _ => true

/-- The equality of the language. Values of different types are never equal. -/
def equals : Value → Value → Bool
  | number left, number right => left == right || left.isNaN && right.isNaN
  | left, right => left == right

/-- What is printed for a value: a string is printed as it is. -/
def text : Value → String
  | nil => "nil"
  | bool true => "true"
  | bool false => "false"
  | number value => Number.text value
  | string value => value

/-- How a value is written in a program: a string stands between quotes, and nothing
in it is escaped. -/
def source : Value → String
  | string value => "\"" ++ value ++ "\""
  | value => value.text

end Value
end BlockScript
