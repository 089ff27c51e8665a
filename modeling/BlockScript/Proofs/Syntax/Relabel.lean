import BlockScript.Syntax.Text

/-!
# Replacing the tokens of a tree

A tree keeps tokens: names, operators and print keywords. They can be replaced without
changing its shape or its literals. Forgetting the lines of all tokens is the case of
interest: trees that become equal by it differ in nothing but where they stand.

## Main result

`Program.text_map`: a program is written with the lexemes of its tokens, and nothing else of
them.
-/

namespace BlockScript

/-- The token with its line forgotten. -/
def Token.unlined (token : Token) : Token :=
  { token with line := 0 }

@[simp] theorem Token.lexeme_unlined (token : Token) : token.unlined.lexeme = token.lexeme := rfl

/-! ### Trees -/

/-- The expression with its tokens replaced. -/
def Expr.map (f : Token → Token) : Expr → Expr
  | .assign name value => .assign (f name) (value.map f)
  | .binary left operator right => .binary (left.map f) (f operator) (right.map f)
  | .group inner => .group (inner.map f)
  | .literal value => .literal value
  | .logical left operator right => .logical (left.map f) (f operator) (right.map f)
  | .unary operator operand => .unary (f operator) (operand.map f)
  | .lookup name => .lookup (f name)

mutual

def Stmt.map (f : Token → Token) : Stmt → Stmt
  | .block body => .block (Stmt.mapAll f body)
  | .expression value => .expression (value.map f)
  | .ifThen condition consequent => .ifThen (condition.map f) (consequent.map f)
  | .ifElse condition consequent alternative =>
    .ifElse (condition.map f) (consequent.map f) (alternative.map f)
  | .print keyword value => .print (f keyword) (value.map f)
  | .var name none => .var (f name) none
  | .var name (some initializer) => .var (f name) (some (initializer.map f))

def Stmt.mapAll (f : Token → Token) : List Stmt → List Stmt
  | [] => []
  | first :: rest => first.map f :: Stmt.mapAll f rest

end

theorem Stmt.mapAll_eq (f : Token → Token) (stmts : List Stmt) :
    Stmt.mapAll f stmts = stmts.map (Stmt.map f) := by
  induction stmts with
  | nil => rfl
  | cons first rest ih => rw [Stmt.mapAll, ih, List.map_cons]

/-! ### Literals -/

/-- The literals of an expression, from left to right. -/
def Expr.literals : Expr → List Value
  | .assign _ value => value.literals
  | .binary left _ right => left.literals ++ right.literals
  | .group inner => inner.literals
  | .literal value => [value]
  | .logical left _ right => left.literals ++ right.literals
  | .unary _ operand => operand.literals
  | .lookup _ => []

mutual

def Stmt.literals : Stmt → List Value
  | .block body => Stmt.allLiterals body
  | .expression value => value.literals
  | .ifThen condition consequent => condition.literals ++ consequent.literals
  | .ifElse condition consequent alternative =>
    condition.literals ++ consequent.literals ++ alternative.literals
  | .print _ value => value.literals
  | .var _ none => []
  | .var _ (some initializer) => initializer.literals

def Stmt.allLiterals : List Stmt → List Value
  | [] => []
  | first :: rest => first.literals ++ Stmt.allLiterals rest

end

/-- Whether all numbers among the literals of a program are finite. -/
def Program.IsFinite (program : Program) : Prop :=
  ∀ x : Float, .number x ∈ Stmt.allLiterals program → x.isFinite = true

/-! ### Text -/

variable {f : Token → Token}

theorem Expr.text_map (same : ∀ token, (f token).lexeme = token.lexeme) (expr : Expr) :
    (expr.map f).text = expr.text := by
  induction expr with
  | assign name value ih => simp only [map, text, same, ih]
  | binary left operator right ihLeft ihRight => simp only [map, text, same, ihLeft, ihRight]
  | group inner ih => simp only [map, text, ih]
  | literal value => rfl
  | logical left operator right ihLeft ihRight => simp only [map, text, same, ihLeft, ihRight]
  | unary operator operand ih => simp only [map, text, same, ih]
  | lookup name => simp only [map, text, same]

mutual

theorem Stmt.text_map (same : ∀ token, (f token).lexeme = token.lexeme) (stmt : Stmt) :
    (stmt.map f).text = stmt.text := by
  match stmt with
  | .block body =>
    have empty : (mapAll f body).isEmpty = body.isEmpty := by rw [mapAll_eq, List.isEmpty_map]
    rw [map, text, text, bodyText_map same body, empty]
  | .expression value => rw [map, text, text, Expr.text_map same]
  | .ifThen condition consequent =>
    rw [map, text, text, Expr.text_map same, text_map same consequent]
  | .ifElse condition consequent alternative =>
    rw [map, text, text, Expr.text_map same, text_map same consequent, text_map same alternative]
  | .print _ value => rw [map, text, text, Expr.text_map same]
  | .var name none => rw [map, text, text, same]
  | .var name (some initializer) => rw [map, text, text, same, Expr.text_map same]

theorem Stmt.bodyText_map (same : ∀ token, (f token).lexeme = token.lexeme) (stmts : List Stmt) :
    bodyText (mapAll f stmts) = bodyText stmts := by
  match stmts with
  | [] => rfl
  | first :: rest => rw [mapAll, bodyText, bodyText, text_map same first, bodyText_map same rest]

end

/-- The statements of a program stand on a line each. -/
theorem Program.text_cons (stmt : Stmt) (rest : Program) :
    Program.text (stmt :: rest) = stmt.text ++ "\n" ++ Program.text rest := by
  simp [Program.text]

theorem Program.text_map (same : ∀ token, (f token).lexeme = token.lexeme) (program : Program) :
    Program.text (Stmt.mapAll f program) = Program.text program := by
  induction program with
  | nil => rfl
  | cons first rest ih =>
    rw [Stmt.mapAll, Program.text_cons, Program.text_cons, Stmt.text_map same, ih]

end BlockScript
