import BlockScript.Run.Error
import BlockScript.Syntax.Value

/-!
# Operators on values

What the unary and binary operators compute. Equality works on all values, addition on
two numbers or two strings, everything else on numbers alone. A binary operator that is
none of the language's accepts no operands at all, and a unary one that is not the
exclamation mark negates.
-/
namespace BlockScript

def applyUnary (operator : Token) (operand : Value) : Except RuntimeError Value :=
  match operator.kind, operand with
  | .symbol .bang, _ => .ok (.bool (!operand.isTruthy))
  | _, .number value => .ok (.number (-value))
  | _, _ => .error ⟨.operandMustBeNumber, operator⟩

/-- The value of an arithmetic operator or a comparison applied to two numbers. -/
def applyNumeric? (kind : TokenKind) (left right : Float) : Option Value :=
  match kind with
  | .symbol .minus => some (.number (left - right))
  | .symbol .star => some (.number (left * right))
  | .symbol .slash => some (.number (left / right))
  | .symbol .greater => some (.bool (left > right))
  | .symbol .greaterEqual => some (.bool (left ≥ right))
  | .symbol .less => some (.bool (left < right))
  | .symbol .lessEqual => some (.bool (left ≤ right))
  | _ => none

/-- The sum of two numbers, or two strings one after the other. -/
def applyPlus? : Value → Value → Option Value
  | .number left, .number right => some (.number (left + right))
  | .string left, .string right => some (.string (left ++ right))
  | _, _ => none

def applyBinary (operator : Token) (left right : Value) : Except RuntimeError Value :=
  match operator.kind with
  | .symbol .equal => .ok (.bool (left.equals right))
  | .symbol .notEqual => .ok (.bool (!left.equals right))
  | .symbol .plus =>
    match applyPlus? left right with
    | some value => .ok value
    | none => .error ⟨.operandsMustBeNumbersOrStrings, operator⟩
  | kind =>
    match left, right with
    | .number left, .number right =>
      match applyNumeric? kind left right with
      | some value => .ok value
      | none => .error ⟨.operandsMustBeNumbers, operator⟩
    | _, _ => .error ⟨.operandsMustBeNumbers, operator⟩

/-- Whether a logical operator is decided by its left operand alone: `or` by one that
counts as true, `and` by one that counts as false. -/
def stopsAt (operator : Token) (left : Value) : Bool :=
  match operator.kind with
  | .keyword .or_ => left.isTruthy
  | .keyword .and_ => !left.isTruthy
  | _ => false

end BlockScript
