import BlockScript.Syntax.Tree
import BlockScript.Worklist

/-!
# Trees as text

A tree has a canonical source text, and an expression also a prefix form that shows
its shape: every operator stands in front of its operands between parentheses.

`Expr.text`, `Stmt.text` and `Expr.prefixText` define these texts by recursion on
the tree. Programs nest deeply, so the library writes them with `Chunk.write`, which
keeps what is still to be written in a list instead of on the call stack;
`Chunk.write_eq` says that it writes the same text.
-/
namespace BlockScript

/-- The source text of an expression. No parentheses are added. -/
def Expr.text : Expr → String
  | .assign name value => name.lexeme ++ " = " ++ value.text
  | .binary left operator right => left.text ++ " " ++ operator.lexeme ++ " " ++ right.text
  | .group inner => "(" ++ inner.text ++ ")"
  | .literal value => value.source
  | .logical left operator right => left.text ++ " " ++ operator.lexeme ++ " " ++ right.text
  | .unary operator operand => operator.lexeme ++ operand.text
  | .lookup name => name.lexeme

def Expr.prefixText : Expr → String
  | .assign name value => "(= " ++ name.lexeme ++ " " ++ value.prefixText ++ ")"
  | .binary left operator right =>
    "(" ++ operator.lexeme ++ " " ++ left.prefixText ++ " " ++ right.prefixText ++ ")"
  | .group inner => "(group " ++ inner.prefixText ++ ")"
  | .literal value => value.source
  | .logical left operator right =>
    "(" ++ operator.lexeme ++ " " ++ left.prefixText ++ " " ++ right.prefixText ++ ")"
  | .unary operator operand => "(" ++ operator.lexeme ++ " " ++ operand.prefixText ++ ")"
  | .lookup name => name.lexeme

mutual

/-- The source text of a statement, on one line unless a string breaks it. -/
def Stmt.text : Stmt → String
  | .block body => "\x7b" ++ Stmt.bodyText body ++ (if body.isEmpty then "\x7d" else " \x7d")
  | .expression value => value.text ++ ";"
  | .ifThen condition consequent => "if (" ++ condition.text ++ ") " ++ consequent.text
  | .ifElse condition consequent alternative =>
    "if (" ++ condition.text ++ ") " ++ consequent.text ++ " else " ++ alternative.text
  | .print _ value => "print " ++ value.text ++ ";"
  | .var name none => "var " ++ name.lexeme ++ ";"
  | .var name (some initializer) => "var " ++ name.lexeme ++ " = " ++ initializer.text ++ ";"

def Stmt.bodyText : List Stmt → String
  | [] => ""
  | first :: rest => " " ++ first.text ++ Stmt.bodyText rest

end

/-- The source text of a program: a line for each statement. -/
def Program.text (program : Program) : String :=
  String.join (program.map (fun statement => statement.text ++ "\n"))

/-! ### Writing without recursion on the tree -/

/-- Something still to be written. -/
inductive Chunk where
  | text (string : String)
  | source (expr : Expr)
  | prefixForm (expr : Expr)
  | statement (stmt : Stmt)
  | body (stmts : List Stmt)

namespace Chunk

def content : Chunk → String
  | text string => string
  | source expr => expr.text
  | prefixForm expr => expr.prefixText
  | statement stmt => stmt.text
  | body stmts => Stmt.bodyText stmts

def weight : Chunk → Nat
  | text _ => 1
  | source expr => 4 * expr.size
  | prefixForm expr => 4 * expr.size
  | statement stmt => 4 * stmt.size
  | body stmts => 4 * Stmt.sizeAll stmts

/-- Writes chunks one after the other at the end of a text. -/
def write (written : String) (chunks : List Chunk) : String :=
  match chunks with
  | [] => written
  | .text string :: rest => write (written ++ string) rest
  | .source expr :: rest =>
    match expr with
    | .assign name value => write (written ++ name.lexeme ++ " = ") (.source value :: rest)
    | .binary left operator right =>
      write written
        (.source left :: .text (" " ++ operator.lexeme ++ " ") :: .source right :: rest)
    | .group inner => write (written ++ "(") (.source inner :: .text ")" :: rest)
    | .literal value => write (written ++ value.source) rest
    | .logical left operator right =>
      write written
        (.source left :: .text (" " ++ operator.lexeme ++ " ") :: .source right :: rest)
    | .unary operator operand => write (written ++ operator.lexeme) (.source operand :: rest)
    | .lookup name => write (written ++ name.lexeme) rest
  | .prefixForm expr :: rest =>
    match expr with
    | .assign name value =>
      write (written ++ "(= " ++ name.lexeme ++ " ") (.prefixForm value :: .text ")" :: rest)
    | .binary left operator right =>
      write (written ++ "(" ++ operator.lexeme ++ " ")
        (.prefixForm left :: .text " " :: .prefixForm right :: .text ")" :: rest)
    | .group inner => write (written ++ "(group ") (.prefixForm inner :: .text ")" :: rest)
    | .literal value => write (written ++ value.source) rest
    | .logical left operator right =>
      write (written ++ "(" ++ operator.lexeme ++ " ")
        (.prefixForm left :: .text " " :: .prefixForm right :: .text ")" :: rest)
    | .unary operator operand =>
      write (written ++ "(" ++ operator.lexeme ++ " ") (.prefixForm operand :: .text ")" :: rest)
    | .lookup name => write (written ++ name.lexeme) rest
  | .statement stmt :: rest =>
    match stmt with
    | .block stmts =>
      write (written ++ "\x7b")
        (.body stmts :: .text (if stmts.isEmpty then "\x7d" else " \x7d") :: rest)
    | .expression value => write written (.source value :: .text ";" :: rest)
    | .ifThen condition consequent =>
      write (written ++ "if (")
        (.source condition :: .text ") " :: .statement consequent :: rest)
    | .ifElse condition consequent alternative =>
      write (written ++ "if (")
        (.source condition :: .text ") " :: .statement consequent :: .text " else " ::
          .statement alternative :: rest)
    | .print _ value => write (written ++ "print ") (.source value :: .text ";" :: rest)
    | .var name none => write (written ++ "var " ++ name.lexeme ++ ";") rest
    | .var name (some initializer) =>
      write (written ++ "var " ++ name.lexeme ++ " = ") (.source initializer :: .text ";" :: rest)
  | .body [] :: rest => write written rest
  | .body (first :: later) :: rest =>
    write (written ++ " ") (.statement first :: .body later :: rest)
termination_by Worklist.total weight chunks
decreasing_by
  all_goals
    simp only [Worklist.total, weight, Expr.size, Stmt.size, Stmt.sizeAll]
    omega

/-- Every chunk is written in full and in its turn. -/
theorem write_eq (written : String) (chunks : List Chunk) :
    write written chunks = written ++ String.join (chunks.map content) := by
  fun_induction write written chunks <;>
    simp_all [content, Expr.text, Expr.prefixText, Stmt.text, Stmt.bodyText, String.append_assoc]

end Chunk

def Expr.render (expr : Expr) : String :=
  Chunk.write "" [.source expr]

def Expr.renderPrefix (expr : Expr) : String :=
  Chunk.write "" [.prefixForm expr]

def Program.render (program : Program) : String :=
  program.foldl (fun written statement => Chunk.write written [.statement statement, .text "\n"]) ""

theorem Expr.render_eq (expr : Expr) : expr.render = expr.text := by
  simp [Expr.render, Chunk.write_eq, Chunk.content]

theorem Expr.renderPrefix_eq (expr : Expr) : expr.renderPrefix = expr.prefixText := by
  simp [Expr.renderPrefix, Chunk.write_eq, Chunk.content]

theorem Program.render_eq (program : Program) : program.render = Program.text program := by
  suffices written : ∀ text : String,
      program.foldl (fun written statement =>
          Chunk.write written [.statement statement, .text "\n"]) text =
        text ++ Program.text program by
    simpa [Program.render] using written ""
  induction program with
  | nil => simp [Program.text]
  | cons statement rest ih =>
    intro text
    rw [List.foldl_cons, ih, Chunk.write_eq]
    simp [Program.text, Chunk.content, String.append_assoc]

end BlockScript
