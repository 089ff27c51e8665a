import BlockScript.Proofs.Grammar.Viable

/-!
# Parsing by recursive descent

The parse as a family of functions, one for each production. They share a cursor that looks one
token ahead and never goes back. An error unwinds to the declaration that it spoils: it is
reported there, and the cursor goes on to where the next declaration may begin.

Nothing in the form of these functions tells that they end, or that the cursor stays inside of the
list. So they are given fuel for the calls that may be nested, and a descent that runs out of it
has no result; nor has one that looks at a place where no token is.
-/

namespace BlockScript

open Parse

/-- How far a descent has come: the place of the cursor, and the errors so far, latest first. -/
structure Descent where
  position : Nat
  errors : List Error

namespace Descent

/-- A part of a descent that no error cuts short. -/
abbrev Walk := StateT Descent Option

/-- A part of a descent that an error may cut short. -/
abbrev Parser := ExceptT Error Walk

/-- The tokens, with a mark behind them unless one is the last of them. -/
def marked (tokens : List Token) : List Token :=
  if (tokens.getLast?.map Token.isEnd) = some true then tokens
  else tokens ++ [.endOfInput ((tokens.getLast?.map Token.line).getD 1)]

def exhausted {α : Type} : Walk α := fun _ => none

variable (tokens : List Token)

/-! ### The cursor -/

/-- The token at the cursor. -/
def peek : Walk Token := fun descent =>
  tokens[descent.position]?.map (·, descent)

def previous : Walk Token := fun descent =>
  tokens[descent.position - 1]?.map (·, descent)

def isAtEnd : Walk Bool := do
  return (← peek tokens).isEnd

/-- Moves the cursor, unless it is at a mark, to behind the token that is returned. -/
def advance : Walk Token := do
  unless ← isAtEnd tokens do
    modify fun descent => { descent with position := descent.position + 1 }
  previous tokens

/-- Whether the token at the cursor is of a kind, and no mark. -/
def check (kind : TokenKind) : Walk Bool := do
  if ← isAtEnd tokens then return false
  else return (← peek tokens).kind = kind

/-- Moves behind the token at the cursor if it is of one of the kinds. -/
def accept (kinds : List TokenKind) : Walk Bool := do
  if ← kinds.anyM (check tokens) then
    let _ ← advance tokens
    return true
  else return false

/-- Moves behind the token at the cursor, which has to be of a kind. -/
def expect (kind : TokenKind) (expected : Expectation) : Parser Token := do
  if ← check tokens kind then advance tokens
  else throw ⟨.missing expected, ← peek tokens⟩

def report (error : Error) : Walk Unit :=
  modify fun descent => { descent with errors := error :: descent.errors }

/-! ### Recovery -/

/-- Whether a token is a keyword with which a declaration begins. -/
def opensDeclaration (token : Token) : Bool :=
  match token.kind with
  | .keyword word => word.startsDeclaration
  | _ => false

/-- Goes on to the first place, from the cursor on, where a declaration may begin. -/
def resume : Nat → Walk Unit
  | 0 => exhausted
  | fuel + 1 => do
    if ← isAtEnd tokens then return
    else if (← previous tokens).kind = .symbol .semicolon then return
    else if opensDeclaration (← peek tokens) then return
    else
      let _ ← advance tokens
      resume fuel

/-- Leaves the token at the cursor, and goes on to where a declaration may begin. -/
def synchronize (fuel : Nat) : Walk Unit := do
  let _ ← advance tokens
  resume tokens fuel

/-! ### Expressions -/

def join (level : Nat) (left : Expr) (operator : Token) (right : Expr) : Expr :=
  if level ≤ 2 then .logical left operator right else .binary left operator right

/-- The node for an assignment. One to anything but a name is reported, and left out: its left side
stands for it. -/
def assignment (target : Expr) (equals : Token) (value : Expr) : Parser Expr := do
  match target with
  | .lookup name => return .assign name value
  | _ =>
    report ⟨.badTarget, equals⟩
    return target

mutual

/-- An expression. The left side of an assignment is judged when the right side has been read. -/
def expression : Nat → Parser Expr
  | 0 => exhausted
  | fuel + 1 => do
    let target ← tier fuel 1
    if ← accept tokens [.symbol .assign] then
      let equals ← previous tokens
      let value ← expression fuel
      assignment target equals value
    else return target

/-- An expression of a level. -/
def tier : Nat → Nat → Parser Expr
  | 0, _ => exhausted
  | fuel + 1, level =>
    if level < 7 then do
      let left ← tier fuel (level + 1)
      chain fuel level left
    else unary fuel

/-- What a left operand becomes with the operators of a level that follow it. -/
def chain : Nat → Nat → Expr → Parser Expr
  | 0, _, _ => exhausted
  | fuel + 1, level, left => do
    if ← accept tokens (Grammar.operators level) then
      let operator ← previous tokens
      let right ← tier fuel (level + 1)
      chain fuel level (join level left operator right)
    else return left

/-- An operand with the signs in front of it. -/
def unary : Nat → Parser Expr
  | 0 => exhausted
  | fuel + 1 => do
    if ← accept tokens [.symbol .bang, .symbol .minus] then
      let operator ← previous tokens
      let operand ← unary fuel
      return .unary operator operand
    else primary fuel

def primary : Nat → Parser Expr
  | 0 => exhausted
  | fuel + 1 => do
    let token ← peek tokens
    if token.kind = .symbol .leftParen then
      let _ ← advance tokens
      let inner ← expression fuel
      let _ ← expect tokens (.symbol .rightParen) .parenAfterExpression
      return .group inner
    else
      match atom? token with
      | some operand =>
        let _ ← advance tokens
        return operand
      | none => throw ⟨.noExpression, token⟩

end

/-! ### Statements and declarations -/

def printing (fuel : Nat) : Parser Stmt := do
  let keyword ← previous tokens
  let value ← expression tokens fuel
  let _ ← expect tokens (.symbol .semicolon) .semicolonAfterValue
  return .print keyword value

/-- An expression that is a statement. -/
def evaluation (fuel : Nat) : Parser Stmt := do
  let value ← expression tokens fuel
  let _ ← expect tokens (.symbol .semicolon) .semicolonAfterExpression
  return .expression value

def initializer (fuel : Nat) : Parser (Option Expr) := do
  if ← accept tokens [.symbol .assign] then
    let value ← expression tokens fuel
    return some value
  else return none

def variableDeclaration (fuel : Nat) : Parser Stmt := do
  let name ← expect tokens .identifier .variableName
  let value ← initializer tokens fuel
  let _ ← expect tokens (.symbol .semicolon) .semicolonAfterDeclaration
  return .var name value

/-- A declaration, or nothing if an error has spoiled it. -/
def recover (fuel : Nat) : Except Error Stmt → Walk (Option Stmt)
  | .ok statement => return some statement
  | .error error => do
    report error
    synchronize tokens fuel
    return none

mutual

def statement : Nat → Parser Stmt
  | 0 => exhausted
  | fuel + 1 => do
    let token ← peek tokens
    match token.kind with
    | .keyword .if_ =>
      let _ ← advance tokens
      branching fuel
    | .keyword .print_ =>
      let _ ← advance tokens
      printing tokens fuel
    | .symbol .leftBrace =>
      let _ ← advance tokens
      let body ← block fuel []
      return .block body
    | _ => evaluation tokens fuel

def branching : Nat → Parser Stmt
  | 0 => exhausted
  | fuel + 1 => do
    let _ ← expect tokens (.symbol .leftParen) .parenAfterIf
    let condition ← expression tokens fuel
    let _ ← expect tokens (.symbol .rightParen) .parenAfterCondition
    let consequent ← statement fuel
    if ← accept tokens [.keyword .else_] then
      let alternative ← statement fuel
      return .ifElse condition consequent alternative
    else return .ifThen condition consequent

/-- What follows an opening brace and some declarations behind it, latest first. -/
def block : Nat → List Stmt → Parser (List Stmt)
  | 0, _ => exhausted
  | fuel + 1, body => do
    if (← check tokens (.symbol .rightBrace)) || (← isAtEnd tokens) then
      let _ ← expect tokens (.symbol .rightBrace) .braceAfterBlock
      return body.reverse
    else
      let next ← declaration fuel
      block fuel (next.toList ++ body)

/-- A declaration up to its end, or up to the error that spoils it. -/
def attempt : Nat → Parser Stmt
  | 0 => exhausted
  | fuel + 1 => do
    if ← accept tokens [.keyword .var_] then variableDeclaration tokens fuel
    else statement fuel

def declaration : Nat → Walk (Option Stmt)
  | 0 => exhausted
  | fuel + 1 => do
    let outcome ← (attempt fuel).run
    recover tokens fuel outcome

end

/-- The declarations of a text behind those that have been read, latest first. -/
def program : Nat → List Stmt → Walk Program
  | 0, _ => exhausted
  | fuel + 1, done => do
    if ← isAtEnd tokens then return done.reverse
    else
      let next ← declaration tokens fuel
      program fuel (next.toList ++ done)

def parse (fuel : Nat) : Option Result :=
  (program (marked tokens) fuel [] ⟨0, []⟩).map fun (program, last) =>
    ⟨program, last.errors.reverse⟩

end Descent
end BlockScript
