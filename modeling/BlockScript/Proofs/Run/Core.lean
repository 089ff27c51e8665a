import BlockScript.Proofs.Run.Relabel
import BlockScript.Run.Execution

/-!
# What a run sees of a program

The core of a program is what is left of it without parentheses, and without anything of its
tokens but the kinds of operators and the lexemes of names.

## Main result

`Interpreter.interpret_core`: programs with the same core do the same to every interpreter, and
end in the same way. Only the token that an error is blamed on may be another one.

## Proof strategy

1. If no token is blamed for anything, a computation that looks at a token does the same with
   what the core keeps of it.
2. To blame nothing commutes with putting computations together (`Run.relabel_bind`). So a program
   and its core are the same computation, by induction on the program, up to blame.
3. Two programs with one core are therefore the same up to blame.
-/

namespace BlockScript

variable {W : Type}

/-! ### Cores -/

namespace Token

def blank : Token :=
  ⟨.endOfInput, "", none, 0⟩

/-- The token with nothing left but its kind. -/
def onlyKind (token : Token) : Token :=
  { blank with kind := token.kind }

def onlyLexeme (token : Token) : Token :=
  { blank with lexeme := token.lexeme }

end Token

/-- The expression without its groups, with operators by their kinds and names by their
lexemes. -/
def Expr.core : Expr → Expr
  | .assign name value => .assign name.onlyLexeme value.core
  | .binary left operator right => .binary left.core operator.onlyKind right.core
  | .group inner => inner.core
  | .literal value => .literal value
  | .logical left operator right => .logical left.core operator.onlyKind right.core
  | .unary operator operand => .unary operator.onlyKind operand.core
  | .lookup name => .lookup name.onlyLexeme

mutual

/-- The statement with the cores of its expressions. Nothing is left of print keywords. -/
def Stmt.core : Stmt → Stmt
  | .block body => .block (Stmt.coreAll body)
  | .expression value => .expression value.core
  | .ifThen condition consequent => .ifThen condition.core consequent.core
  | .ifElse condition consequent alternative =>
    .ifElse condition.core consequent.core alternative.core
  | .print _ value => .print .blank value.core
  | .var name none => .var name.onlyLexeme none
  | .var name (some initializer) => .var name.onlyLexeme (some initializer.core)

def Stmt.coreAll : List Stmt → List Stmt
  | [] => []
  | first :: rest => first.core :: Stmt.coreAll rest

end

/-! ### Computations up to blame -/

namespace Run

variable {α β : Type}

/-- The computation whose errors are blamed on no token. -/
def unblamed (run : Run W α) : Run W α :=
  relabel (fun _ => .blank) run

theorem unblamed_bind (first : Run W α) (second : α → Run W β) :
    unblamed (first >>= second) = unblamed first >>= fun value => unblamed (second value) :=
  relabel_bind _ first second

theorem unblamed_inBlock (body : Run W α) : unblamed (inBlock body) = inBlock (unblamed body) :=
  relabel_inBlock _ body

theorem unblamed_apply (run : Run W α) (state : Interpreter W) :
    unblamed run state =
      ((run state).1.mapError (RuntimeError.map fun _ => .blank), (run state).2) := by
  simp only [unblamed, relabel]
  rcases run state with ⟨_ | _, _⟩ <;> rfl

/-- To blame another token leaves the fault. -/
theorem fault_map (f : Token → Token) (result : Except RuntimeError α) :
    (result.mapError (RuntimeError.map f)).mapError RuntimeError.fault =
      result.mapError RuntimeError.fault := by
  cases result <;> rfl

/-- Computations that are the same up to blame have the same effect and end in the same way. -/
theorem same_of_unblamed {run other : Run W α} (same : unblamed run = unblamed other)
    (state : Interpreter W) :
    (run state).2 = (other state).2 ∧
      (run state).1.mapError RuntimeError.fault = (other state).1.mapError RuntimeError.fault := by
  have applied := congrFun same state
  rw [unblamed_apply, unblamed_apply] at applied
  obtain ⟨results, states⟩ := Prod.mk.inj applied
  refine ⟨states, ?_⟩
  have faults := congrArg (Except.mapError RuntimeError.fault) results
  rwa [fault_map, fault_map] at faults

end Run

open Run Interpreter

theorem unblamed_get (name : Token) :
    (unblamed (Interpreter.get name.onlyLexeme) : Run W Value) =
      unblamed (Interpreter.get name) := by
  funext state
  simp only [unblamed, relabel, Interpreter.get, Token.onlyLexeme]
  cases state.scopes.get? state.current name.lexeme <;> rfl

theorem unblamed_assign (name : Token) (value : Value) :
    (unblamed (assign name.onlyLexeme value) : Run W Unit) = unblamed (assign name value) := by
  funext state
  simp only [unblamed, relabel, assign, Token.onlyLexeme]
  cases state.scopes.owner? state.current name.lexeme <;> rfl

theorem unblamed_print [Writer W] (keyword : Token) (value : Value) :
    (unblamed (print .blank value) : Run W Unit) = unblamed (print keyword value) := by
  funext state
  simp only [unblamed, relabel, print]
  rcases Writer.write state.sink (value.text ++ "\n").toUTF8 with ⟨_ | _, _⟩ <;> rfl

theorem unblamed_unary (operator : Token) (operand : Value) :
    (unblamed (liftM (applyUnary operator.onlyKind operand)) : Run W Value) =
      unblamed (liftM (applyUnary operator operand)) := by
  simp only [unblamed, relabel_lift, applyUnary, Token.onlyKind]
  split <;> rfl

theorem unblamed_binary (operator : Token) (left right : Value) :
    (unblamed (liftM (applyBinary operator.onlyKind left right)) : Run W Value) =
      unblamed (liftM (applyBinary operator left right)) := by
  simp only [unblamed, relabel_lift, applyBinary, Token.onlyKind]
  split
  · rfl
  · rfl
  · split <;> rfl
  · split
    · split <;> rfl
    · rfl

/-! ### Programs -/

theorem Expr.unblamed_core (expr : Expr) :
    (unblamed expr.core.eval : Run W Value) = unblamed expr.eval := by
  induction expr with
  | assign name value ih =>
    simp only [core, eval, unblamed_bind, ih, unblamed_assign]
  | binary left operator right ihLeft ihRight =>
    simp only [core, eval, unblamed_bind, ihLeft, ihRight, unblamed_binary]
  | group inner ih => exact ih
  | literal value => rfl
  | logical left operator right ihLeft ihRight =>
    simp only [core, eval, unblamed_bind, ihLeft]
    congr 1
    funext value
    -- Whether the left side decides depends on the kind of the operator.
    change unblamed (if stopsAt operator value then _ else _) = _
    split
    · rfl
    · exact ihRight
  | unary operator operand ih =>
    simp only [core, eval, unblamed_bind, ih, unblamed_unary]
  | lookup name => exact unblamed_get name

variable [Writer W]

mutual

theorem Stmt.unblamed_core (stmt : Stmt) :
    (unblamed stmt.core.exec : Run W Unit) = unblamed stmt.exec := by
  match stmt with
  | .block body =>
    simp only [core, exec, unblamed_inBlock, unblamed_coreAll body]
  | .expression value =>
    simp only [core, exec, unblamed_bind, Expr.unblamed_core]
  | .ifThen condition consequent =>
    simp only [core, exec, unblamed_bind, Expr.unblamed_core]
    congr 1
    funext chosen
    split
    · exact unblamed_core consequent
    · rfl
  | .ifElse condition consequent alternative =>
    simp only [core, exec, unblamed_bind, Expr.unblamed_core]
    congr 1
    funext chosen
    split
    · exact unblamed_core consequent
    · exact unblamed_core alternative
  | .print keyword value =>
    simp only [core, exec, unblamed_bind, Expr.unblamed_core, unblamed_print keyword]
  | .var name none => rfl
  | .var name (some initializer) =>
    simp only [core, exec, unblamed_bind, Expr.unblamed_core]
    rfl

/-- Up to blame a program is its core. -/
theorem Stmt.unblamed_coreAll (stmts : List Stmt) :
    (unblamed (execAll (coreAll stmts)) : Run W Unit) = unblamed (execAll stmts) := by
  match stmts with
  | [] => rfl
  | first :: rest =>
    simp only [coreAll, execAll, unblamed_bind, unblamed_core first, unblamed_coreAll rest]

end

/-! ### Main theorem -/

namespace Interpreter

/-- A run sees only the core of its program. Two programs with the same core, run by the same
interpreter, write the same output, leave the same bindings in all scopes and the same scope as the
current one, and both succeed or both fail with the same fault. -/
theorem interpret_core {program other : Program}
    (same : Stmt.coreAll program = Stmt.coreAll other) (state : Interpreter W) :
    (interpret program state).2 = (interpret other state).2 ∧
      (interpret program state).1.mapError RuntimeError.fault =
        (interpret other state).1.mapError RuntimeError.fault := by
  apply same_of_unblamed
  rw [interpret_eq, interpret_eq, ← Stmt.unblamed_coreAll program, same, Stmt.unblamed_coreAll]

/-- Two programs that agree in nothing but their core, one of them with tokens that no text has. An
addition fails in both after an assignment has been made. -/
theorem interpret_core_foreign :
    let token (kind : TokenKind) (lexeme : String) (line : Nat) : Token :=
      ⟨kind, lexeme, none, line⟩
    let program : Program :=
      [.print (token (.keyword .print_) "print" 1)
        (.binary (.group (.assign (token .identifier "a" 1) (.literal (.bool true))))
          (token (.symbol .plus) "+" 1) (.literal .nil))]
    let other : Program :=
      [.print (token .endOfInput "" 7)
        (.group (.binary (.assign (token .number "a" 8) (.literal (.bool true)))
          (token (.symbol .plus) "plus" 9) (.group (.literal .nil))))]
    let state : Interpreter Sink := ⟨Scopes.empty.create.define 0 "a" .nil, 0, .unlimited⟩
    Stmt.coreAll program = Stmt.coreAll other ∧
      (interpret program state).1.mapError RuntimeError.fault =
        (interpret other state).1.mapError RuntimeError.fault ∧
      (interpret other state).1.isOk = false ∧
      (interpret program state).2.scopes.bound? 0 "a" = some (.bool true) := by
  intro token program other state
  have same : Stmt.coreAll program = Stmt.coreAll other := rfl
  obtain ⟨last, result⟩ := interpret_core same state
  refine ⟨same, result, ?_, ?_⟩
  · rw [interpret_eq]
    decide +kernel
  · rw [last, interpret_eq]
    decide +kernel

end Interpreter

end BlockScript
