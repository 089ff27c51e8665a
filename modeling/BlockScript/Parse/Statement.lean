import BlockScript.Parse.Expression

/-!
# Reading statements

An `if` is not finished when its branch is: the next token may be an `else`. So a
finished statement first stays `closed`, and the token after it settles where it
belongs. An `else` goes to the nearest `if` that has none yet; any other token
completes every such `if`, up to the innermost open block.
-/
namespace BlockScript.Parse.State

/-- Puts a finished statement where it belongs when an `else` follows, or when none
does. -/
def settle (state : State) (elseFollows : Bool) (statement : Stmt) : List Context → State
  | .elseBranch condition consequent :: rest =>
    settle state elseFollows (.ifElse condition consequent statement) rest
  | .thenBranch condition :: rest =>
    if elseFollows then
      { state with mode := .statement, contexts := .elseBranch condition statement :: rest }
    else settle state elseFollows (.ifThen condition statement) rest
  | .block body :: rest =>
    { state with mode := .declaration, contexts := .block (statement :: body) :: rest }
  | [] => { state with mode := .declaration, contexts := [], program := statement :: state.program }

def readStatement (state : State) (token : Token) : State :=
  match token.kind with
  | .keyword .if_ => { state with mode := .conditionParen }
  | .keyword .print_ => { state with mode := .operand [] (.print token) }
  | .symbol .leftBrace =>
    { state with mode := .declaration, contexts := .block [] :: state.contexts }
  | _ => state.readOperand [] .expression token

/-- Reads the first token of a declaration, or the end of the innermost block. -/
def readDeclaration (state : State) (token : Token) : State :=
  match token.kind, state.contexts with
  | .keyword .var_, _ => { state with mode := .variableName }
  | .symbol .rightBrace, .block body :: rest =>
    { state with mode := .closed (.block body.reverse), contexts := rest }
  | _, _ => state.readStatement token

/-- Reads the token after a finished statement. -/
def readAfter (state : State) (statement : Stmt) (token : Token) : State :=
  let settled := state.settle (token.kind = .keyword .else_) statement state.contexts
  match settled.mode with
  -- The `else` has been taken and a branch comes next.
  | .statement => settled
  -- Otherwise the token begins a declaration of its own, or ends the block.
  | _ => settled.readDeclaration token

/-- Reads a token of a spoiled declaration. The next one begins after a semicolon or
at a keyword that starts a declaration. -/
def readRecovering (state : State) (token : Token) : State :=
  match token.kind with
  | .symbol .semicolon => { state with mode := .declaration }
  | .keyword word => if word.startsDeclaration then state.readDeclaration token else state
  | _ => state

def step (state : State) (token : Token) : State :=
  match state.mode with
  | .declaration => state.readDeclaration token
  | .statement => state.readStatement token
  | .closed statement => state.readAfter statement token
  | .variableName =>
    if token.kind = .identifier then { state with mode := .variableTail token }
    else state.fail (.missing .variableName) token
  | .variableTail name =>
    match token.kind with
    | .symbol .assign => { state with mode := .operand [] (.initializer name) }
    | .symbol .semicolon => { state with mode := .closed (.var name none) }
    | _ => state.fail (.missing .semicolonAfterDeclaration) token
  | .conditionParen =>
    if token.kind = .symbol .leftParen then { state with mode := .operand [] .condition }
    else state.fail (.missing .parenAfterIf) token
  | .operand frames purpose => state.readOperand frames purpose token
  | .operator frames purpose operand => state.readOperator frames purpose operand token
  | .recovering => state.readRecovering token

end BlockScript.Parse.State
