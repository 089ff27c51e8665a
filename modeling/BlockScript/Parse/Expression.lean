import BlockScript.Parse.State

/-!
# Reading expressions

Operators are told apart by precedence alone, and all of them associate to the left.
An operator that comes after an operand first closes every waiting operator that
binds at least as tightly, then waits for its own right operand. An equals sign closes
all of them back to the last parenthesis or equals sign, so assignments associate to
the right. Any other token ends the expression, or the parenthesised part of it.
-/
namespace BlockScript.Parse

/-- How tightly a binary or logical operator binds. -/
def precedence? : TokenKind → Option Nat
  | .keyword .or_ => some 1
  | .keyword .and_ => some 2
  | .symbol .notEqual | .symbol .equal => some 3
  | .symbol .greater | .symbol .greaterEqual | .symbol .less | .symbol .lessEqual => some 4
  | .symbol .minus | .symbol .plus => some 5
  | .symbol .slash | .symbol .star => some 6
  | _ => none

def combine (left : Expr) (operator : Token) (right : Expr) : Expr :=
  match operator.kind with
  | .keyword _ => .logical left operator right
  | _ => .binary left operator right

/-- Closes the waiting operators that bind at least as tightly as `precedence`, the
innermost around `operand` first. -/
def reduce (precedence : Nat) : List Frame → Expr → List Frame × Expr
  | .unary operator :: rest, operand => reduce precedence rest (.unary operator operand)
  | .binary left operator level :: rest, operand =>
    if precedence ≤ level then reduce precedence rest (combine left operator operand)
    else (.binary left operator level :: rest, operand)
  | frames, operand => (frames, operand)

/-- An expression that has been closed on its right. -/
structure Closing where
  /-- The frames outside of the parenthesis that the expression stands in, if it
  stands in one. -/
  outside : Option (List Frame)
  operand : Expr
  /-- The equals signs without a variable on their left, latest first. -/
  badTargets : List Error

/-- Closes everything back to the last open parenthesis, or to the beginning of the
expression. An assignment to anything but a variable is left out; what stands on its
left is kept. -/
def close (errors : List Error) : List Frame → Expr → Closing
  | .unary operator :: rest, operand => close errors rest (.unary operator operand)
  | .binary left operator _ :: rest, operand =>
    close errors rest (combine left operator operand)
  | .assign (.lookup name) _ :: rest, operand => close errors rest (.assign name operand)
  | .assign target equals :: rest, _ => close (⟨.badTarget, equals⟩ :: errors) rest target
  | .group :: rest, operand => ⟨some rest, operand, errors⟩
  | [], operand => ⟨none, operand, errors⟩

def atom? (token : Token) : Option Expr :=
  match token.kind with
  | .keyword .false_ => some (.literal (.bool false))
  | .keyword .true_ => some (.literal (.bool true))
  | .keyword .nil_ => some (.literal .nil)
  | .number | .string => token.literal.map (fun literal => .literal (.ofLiteral literal))
  | .identifier => some (.lookup token)
  | _ => none

namespace State

def readOperand (state : State) (frames : List Frame) (purpose : Purpose) (token : Token) :
    State :=
  match token.kind with
  | .symbol .bang | .symbol .minus =>
    { state with mode := .operand (.unary token :: frames) purpose }
  | .symbol .leftParen => { state with mode := .operand (.group :: frames) purpose }
  | _ =>
    match atom? token with
    | some operand => { state with mode := .operator frames purpose operand }
    | none => state.fail .noExpression token

/-- Reads the token after a complete expression. -/
def readEnd (state : State) (purpose : Purpose) (value : Expr) (token : Token) : State :=
  match purpose with
  | .expression =>
    if token.kind = .symbol .semicolon then { state with mode := .closed (.expression value) }
    else state.fail (.missing .semicolonAfterExpression) token
  | .print keyword =>
    if token.kind = .symbol .semicolon then { state with mode := .closed (.print keyword value) }
    else state.fail (.missing .semicolonAfterValue) token
  | .initializer name =>
    if token.kind = .symbol .semicolon then { state with mode := .closed (.var name (some value)) }
    else state.fail (.missing .semicolonAfterDeclaration) token
  | .condition =>
    if token.kind = .symbol .rightParen then
      { state with mode := .statement, contexts := .thenBranch value :: state.contexts }
    else state.fail (.missing .parenAfterCondition) token

def readOperator (state : State) (frames : List Frame) (purpose : Purpose) (operand : Expr)
    (token : Token) : State :=
  match precedence? token.kind with
  | some precedence =>
    let (frames, left) := reduce precedence frames operand
    { state with mode := .operand (.binary left token precedence :: frames) purpose }
  | none =>
    if token.kind = .symbol .assign then
      let (frames, target) := reduce 0 frames operand
      { state with mode := .operand (.assign target token :: frames) purpose }
    else
      -- Bad targets are reported whether or not the token that ends the expression fits.
      let closing := close state.errors frames operand
      let state := { state with errors := closing.badTargets }
      match closing.outside with
      | some frames =>
        if token.kind = .symbol .rightParen then
          { state with mode := .operator frames purpose (.group closing.operand) }
        else state.fail (.missing .parenAfterExpression) token
      | none => state.readEnd purpose closing.operand token

end State
end BlockScript.Parse
