import BlockScript.Parse.Error
import BlockScript.Syntax.Tree

/-!
# The state of a parse

A program is parsed token by token. Between two tokens the parse knows which
statements are finished, which ones surround the place it has reached, and what it is
reading there. Inside an expression it also keeps the operators and parentheses that
still wait for an operand, innermost first.
-/
namespace BlockScript.Parse

/-- An expression that has begun and waits for the operand on its right. -/
inductive Frame where
  | unary (operator : Token)
  /-- A binary or logical operator after its left operand. -/
  | binary (left : Expr) (operator : Token) (precedence : Nat)
  /-- An equals sign after whatever stands on its left. -/
  | assign (target : Expr) (equals : Token)
  /-- An opening parenthesis. -/
  | group

/-- What an expression is read for. -/
inductive Purpose where
  | expression
  | print (keyword : Token)
  | initializer (name : Token)
  | condition

/-- A statement that has begun and surrounds the one that is being read. -/
inductive Context where
  | thenBranch (condition : Expr)
  | elseBranch (condition : Expr) (consequent : Stmt)
  /-- An open block and its statements so far, latest first. -/
  | block (body : List Stmt)

/-- What is being read. -/
inductive Mode where
  /-- The beginning of a declaration. -/
  | declaration
  /-- The beginning of a branch, which is never a declaration. -/
  | statement
  /-- A statement has ended; the next token tells whether an `else` follows. -/
  | closed (statement : Stmt)
  /-- The name after `var`. -/
  | variableName
  /-- What follows the name of a declared variable. -/
  | variableTail (name : Token)
  /-- The parenthesis after `if`. -/
  | conditionParen
  /-- The beginning of an operand. -/
  | operand (frames : List Frame) (purpose : Purpose)
  /-- What follows an operand. -/
  | operator (frames : List Frame) (purpose : Purpose) (operand : Expr)
  /-- The rest of a spoiled declaration. -/
  | recovering

/-- A parse between two tokens. Finished statements and errors are listed latest
first. -/
structure State where
  mode : Mode
  contexts : List Context
  program : List Stmt
  errors : List Error

namespace State

def initial : State :=
  ⟨.declaration, [], [], []⟩

def record (state : State) (fault : Fault) (token : Token) : State :=
  { state with errors := ⟨fault, token⟩ :: state.errors }

end State

def Context.isBlock : Context → Bool
  | block _ => true
  | _ => false

namespace State

/-- Gives up a spoiled declaration at the token to blame. What is read of it is
dropped up to the innermost open block, and so is the token itself; the next
declaration may begin right after it if it is a semicolon. -/
def fail (state : State) (fault : Fault) (token : Token) : State :=
  { state.record fault token with
    mode := if token.kind = .symbol .semicolon then .declaration else .recovering
    contexts := state.contexts.dropWhile (fun context => !context.isBlock) }

end State
end BlockScript.Parse
