import BlockScript.Syntax.Tree

/-!
# The grammar

Programs by their productions, without regard to how they are read. A derivation keeps
every token, so it spells exactly one list of tokens; the tree that it stands for forgets
the tokens that only give it its shape.

    program     → declaration*
    declaration → "var" NAME ("=" expression)? ";" | statement
    statement   → expression ";" | "print" expression ";" | "{" declaration* "}"
                | "if" "(" expression ")" statement ("else" statement)?

Expressions have levels, numbered from the loosest:

    0 expression → 1 "=" 0 | 1        5 term    → 5 ("-" | "+") 6 | 6
    1 or         → 1 "or" 2 | 2       6 factor  → 6 ("/" | "*") 7 | 7
    2 and        → 2 "and" 3 | 3      7 unary   → ("!" | "-") 7 | 8
    3 equality   → 3 ("!=" | "==") 4 | 4
    4 comparison → 4 (">" | ">=" | "<" | "<=") 5 | 5
    8 primary    → NUMBER | STRING | "true" | "false" | "nil" | NAME | "(" 0 ")"

More can be derived than is a program: any expression of level one may stand in front of
an equals sign. Where it is not a name, the assignment stands for its left side.
-/

namespace BlockScript.Grammar

/-! ### Expressions -/

/-- The operators of a level. -/
def operators : Nat → List TokenKind
  | 1 => [.keyword .or_]
  | 2 => [.keyword .and_]
  | 3 => [.symbol .notEqual, .symbol .equal]
  | 4 => [.symbol .greater, .symbol .greaterEqual, .symbol .less, .symbol .lessEqual]
  | 5 => [.symbol .minus, .symbol .plus]
  | 6 => [.symbol .slash, .symbol .star]
  | _ => []

/-- Whether a token is an expression by itself. A number or a string is one only if it
carries its value. -/
def IsAtom (token : Token) : Prop :=
  match token.kind with
  | .keyword .false_ | .keyword .true_ | .keyword .nil_ | .identifier => True
  | .number | .string => token.literal.isSome
  | _ => False

/-- A derivation of an expression. -/
inductive Phrase where
  | atom (token : Token)
  | parens (opening : Token) (inner : Phrase) (closing : Token)
  | unary (operator : Token) (operand : Phrase)
  | binary (left : Phrase) (operator : Token) (right : Phrase)
  | assign (target : Phrase) (equals : Token) (value : Phrase)

/-- The productions for expressions, with the level that each of them yields. -/
inductive Phrase.At : Nat → Phrase → Prop where
  | atom {token : Token} (alone : IsAtom token) : At 8 (.atom token)
  | parens {opening closing : Token} {inner : Phrase}
      (opens : opening.kind = .symbol .leftParen) (derived : At 0 inner)
      (closes : closing.kind = .symbol .rightParen) : At 8 (.parens opening inner closing)
  | unary {operator : Token} {operand : Phrase}
      (kind : operator.kind = .symbol .bang ∨ operator.kind = .symbol .minus)
      (derived : At 7 operand) : At 7 (.unary operator operand)
  | binary {level : Nat} {left right : Phrase} {operator : Token}
      (kind : operator.kind ∈ operators level) (first : At level left)
      (second : At (level + 1) right) : At level (.binary left operator right)
  | assign {target value : Phrase} {equals : Token} (kind : equals.kind = .symbol .assign)
      (first : At 1 target) (second : At 0 value) : At 0 (.assign target equals value)
  | tighter {level : Nat} {phrase : Phrase} (derived : At (level + 1) phrase) : At level phrase

namespace Phrase

def tokens : Phrase → List Token
  | atom token => [token]
  | parens opening inner closing => opening :: inner.tokens ++ [closing]
  | unary operator operand => operator :: operand.tokens
  | binary left operator right => left.tokens ++ operator :: right.tokens
  | assign target equals value => target.tokens ++ equals :: value.tokens

/-- The name that an expression is, if it is nothing but a name. -/
def name? : Phrase → Option Token
  | atom token => if token.kind = .identifier then some token else none
  | _ => none

def atomExpr (token : Token) : Expr :=
  match token.kind with
  | .identifier => .lookup token
  | .keyword .true_ => .literal (.bool true)
  | .keyword .false_ => .literal (.bool false)
  | .keyword .nil_ => .literal .nil
  | _ => .literal ((token.literal.map Value.ofLiteral).getD .nil)

/-- The tree of an expression. An assignment to anything but a name stands for what is on
its left. -/
def expr : Phrase → Expr
  | atom token => atomExpr token
  | parens _ inner _ => .group inner.expr
  | unary operator operand => .unary operator operand.expr
  | binary left operator right =>
    if operator.kind = .keyword .or_ ∨ operator.kind = .keyword .and_ then
      .logical left.expr operator right.expr
    else .binary left.expr operator right.expr
  | assign target _ value =>
    match target.name? with
    | some name => .assign name value.expr
    | none => target.expr

/-- The equals signs of the assignments to anything but a name. An assignment is judged
when its right side has been read, so those inside of it come first. -/
def badTargets : Phrase → List Token
  | atom _ => []
  | parens _ inner _ => inner.badTargets
  | unary _ operand => operand.badTargets
  | binary left _ right => left.badTargets ++ right.badTargets
  | assign target equals value =>
    target.badTargets ++ value.badTargets ++ (if target.name?.isNone then [equals] else [])

end Phrase

/-! ### Declarations and statements -/

/-- A derivation of a declaration or a statement. -/
inductive Clause where
  | var (keyword name semicolon : Token)
  | varInit (keyword name equals : Token) (value : Phrase) (semicolon : Token)
  | expression (value : Phrase) (semicolon : Token)
  | print (keyword : Token) (value : Phrase) (semicolon : Token)
  | block (opening : Token) (body : List Clause) (closing : Token)
  | ifThen (keyword opening : Token) (condition : Phrase) (closing : Token) (consequent : Clause)
  | ifElse (keyword opening : Token) (condition : Phrase) (closing : Token) (consequent : Clause)
      (otherwise : Token) (alternative : Clause)

inductive Nonterminal where
  | declaration
  | statement

namespace Clause

/-- Whether an `else` right after the clause would belong to an `if` in it. -/
def isOpen : Clause → Bool
  | ifThen .. => true
  | ifElse _ _ _ _ _ _ alternative => alternative.isOpen
  | _ => false

/-- The productions for declarations and statements. What stands in front of an `else`
holds no open `if`: the `else` would belong to that one. -/
inductive From : Nonterminal → Clause → Prop where
  | var {keyword name semicolon : Token} (word : keyword.kind = .keyword .var_)
      (named : name.kind = .identifier) (ends : semicolon.kind = .symbol .semicolon) :
      From .declaration (.var keyword name semicolon)
  | varInit {keyword name equals semicolon : Token} {value : Phrase}
      (word : keyword.kind = .keyword .var_) (named : name.kind = .identifier)
      (sets : equals.kind = .symbol .assign) (derived : value.At 0)
      (ends : semicolon.kind = .symbol .semicolon) :
      From .declaration (.varInit keyword name equals value semicolon)
  | statement {clause : Clause} (derived : From .statement clause) : From .declaration clause
  | expression {value : Phrase} {semicolon : Token} (derived : value.At 0)
      (ends : semicolon.kind = .symbol .semicolon) : From .statement (.expression value semicolon)
  | print {keyword semicolon : Token} {value : Phrase} (word : keyword.kind = .keyword .print_)
      (derived : value.At 0) (ends : semicolon.kind = .symbol .semicolon) :
      From .statement (.print keyword value semicolon)
  | block {opening closing : Token} {body : List Clause}
      (opens : opening.kind = .symbol .leftBrace)
      (derived : ∀ clause ∈ body, From .declaration clause)
      (closes : closing.kind = .symbol .rightBrace) :
      From .statement (.block opening body closing)
  | ifThen {keyword opening closing : Token} {condition : Phrase} {consequent : Clause}
      (word : keyword.kind = .keyword .if_) (opens : opening.kind = .symbol .leftParen)
      (tested : condition.At 0) (closes : closing.kind = .symbol .rightParen)
      (first : From .statement consequent) :
      From .statement (.ifThen keyword opening condition closing consequent)
  | ifElse {keyword opening closing otherwise : Token} {condition : Phrase}
      {consequent alternative : Clause} (word : keyword.kind = .keyword .if_)
      (opens : opening.kind = .symbol .leftParen) (tested : condition.At 0)
      (closes : closing.kind = .symbol .rightParen) (first : From .statement consequent)
      (nearest : consequent.isOpen = false) (elseWord : otherwise.kind = .keyword .else_)
      (second : From .statement alternative) :
      From .statement
        (.ifElse keyword opening condition closing consequent otherwise alternative)

mutual

def tokens : Clause → List Token
  | var keyword name semicolon => [keyword, name, semicolon]
  | varInit keyword name equals value semicolon =>
    keyword :: name :: equals :: value.tokens ++ [semicolon]
  | expression value semicolon => value.tokens ++ [semicolon]
  | print keyword value semicolon => keyword :: value.tokens ++ [semicolon]
  | block opening body closing => opening :: allTokens body ++ [closing]
  | ifThen keyword opening condition closing consequent =>
    keyword :: opening :: condition.tokens ++ closing :: consequent.tokens
  | ifElse keyword opening condition closing consequent otherwise alternative =>
    keyword :: opening :: condition.tokens ++ closing :: consequent.tokens ++
      otherwise :: alternative.tokens

def allTokens : List Clause → List Token
  | [] => []
  | first :: rest => first.tokens ++ allTokens rest

end

mutual

def stmt : Clause → Stmt
  | var _ name _ => .var name none
  | varInit _ name _ value _ => .var name (some value.expr)
  | expression value _ => .expression value.expr
  | print keyword value _ => .print keyword value.expr
  | block _ body _ => .block (allStmts body)
  | ifThen _ _ condition _ consequent => .ifThen condition.expr consequent.stmt
  | ifElse _ _ condition _ consequent _ alternative =>
    .ifElse condition.expr consequent.stmt alternative.stmt

def allStmts : List Clause → List Stmt
  | [] => []
  | first :: rest => first.stmt :: allStmts rest

end

mutual

/-- The equals signs of the assignments to anything but a name. -/
def badTargets : Clause → List Token
  | var .. => []
  | varInit _ _ _ value _ => value.badTargets
  | expression value _ => value.badTargets
  | print _ value _ => value.badTargets
  | block _ body _ => allBadTargets body
  | ifThen _ _ condition _ consequent => condition.badTargets ++ consequent.badTargets
  | ifElse _ _ condition _ consequent _ alternative =>
    condition.badTargets ++ consequent.badTargets ++ alternative.badTargets

def allBadTargets : List Clause → List Token
  | [] => []
  | first :: rest => first.badTargets ++ allBadTargets rest

end

end Clause

/-- The derivations of a list of tokens as a program. -/
def Derives (clauses : List Clause) (tokens : List Token) : Prop :=
  (∀ clause ∈ clauses, clause.From .declaration) ∧ Clause.allTokens clauses = tokens

/-! ### Levels -/

theorem level_of_mem_operators {kind : TokenKind} {level : Nat}
    (member : kind ∈ operators level) : 1 ≤ level ∧ level ≤ 6 := by
  unfold operators at member
  split at member <;> simp_all

/-- No operator belongs to two levels. -/
theorem operators_inj {kind : TokenKind} {level other : Nat} (member : kind ∈ operators level)
    (same : kind ∈ operators other) : level = other := by
  unfold operators at member same
  split at member <;> split at same <;> grind

namespace Phrase

variable {phrase : Phrase} {level looser : Nat}

/-- What can be derived on a level can be derived on every looser one. -/
theorem At.mono (derived : phrase.At level) (bound : looser ≤ level) : phrase.At looser := by
  induction level with
  | zero => exact Nat.le_zero.mp bound ▸ derived
  | succ level ih =>
    rcases Nat.eq_or_lt_of_le bound with rfl | below
    · exact derived
    · exact ih derived.tighter (Nat.le_of_lt_succ below)

theorem eq_atom_of_name? {phrase : Phrase} {name : Token} (named : phrase.name? = some name) :
    phrase = .atom name ∧ name.kind = .identifier := by
  cases phrase with
  | atom token =>
    simp only [name?, Option.ite_none_right_eq_some, Option.some_inj] at named
    obtain ⟨kind, rfl⟩ := named
    exact ⟨rfl, kind⟩
  | _ => cases named

/-- Only a name stands for the tree of a name. -/
theorem expr_eq_lookup_iff (phrase : Phrase) (name : Token) :
    phrase.expr = .lookup name ↔ phrase.name? = some name := by
  induction phrase with
  | atom token =>
    unfold expr atomExpr name?
    split <;> simp_all
  | parens | unary => simp [expr, name?]
  | binary =>
    unfold expr name?
    split <;> simp
  | assign target _ _ ih _ =>
    unfold expr
    split
    next given => simp [name?]
    next absent =>
      rw [ih, absent]
      simp [name?]

theorem tokens_ne_nil (phrase : Phrase) : phrase.tokens ≠ [] := by
  cases phrase <;> simp [tokens]

end Phrase
end BlockScript.Grammar
