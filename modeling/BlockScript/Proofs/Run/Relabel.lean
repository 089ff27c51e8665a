import BlockScript.Proofs.Syntax.Relabel
import BlockScript.Run.Semantics

/-!
# Running looks at kinds and lexemes only

## Main result

`Stmt.execAll_map`: if the tokens of a program are replaced by tokens of the same kinds and
lexemes, a run does the same; only an error that stops it is blamed on the new token.

## Proof strategy

Replacing the token of the error commutes with every way of putting computations together,
and the computations that look at a token look at its kind or its lexeme.
-/

namespace BlockScript

variable {W : Type}

def RuntimeError.map (f : Token → Token) (error : RuntimeError) : RuntimeError :=
  ⟨error.fault, f error.token⟩

namespace Run

/-- Whether a replacement of tokens keeps what a run looks at. -/
structure Keeps (f : Token → Token) : Prop where
  kind : ∀ token, (f token).kind = token.kind
  lexeme : ∀ token, (f token).lexeme = token.lexeme

/-- The computation that blames its error on the replaced token. -/
def relabel {α : Type} (f : Token → Token) (run : Run W α) : Run W α := fun state =>
  match run state with
  | (.ok value, state) => (.ok value, state)
  | (.error error, state) => (.error (error.map f), state)

variable {α β : Type} (f : Token → Token)

@[simp] theorem relabel_pure (value : α) : relabel f (pure value : Run W α) = pure value := rfl

theorem relabel_bind (first : Run W α) (second : α → Run W β) :
    relabel f (first >>= second) = relabel f first >>= fun value => relabel f (second value) := by
  funext state
  simp only [relabel, bind_apply]
  rcases first state with ⟨_ | _, _⟩ <;> rfl

theorem relabel_lift (result : Except RuntimeError α) :
    relabel f (liftM result : Run W α) = liftM (result.mapError (RuntimeError.map f)) := by
  cases result <;> rfl

theorem relabel_inBlock (body : Run W α) : relabel f (inBlock body) = inBlock (relabel f body) := by
  funext state
  simp only [relabel, inBlock]
  rcases body state.enterBlock with ⟨_ | _, _⟩ <;> rfl

end Run

/-! ### Operations -/

section

variable {f : Token → Token} (keeps : Run.Keeps f)
include keeps

theorem applyUnary_map (operator : Token) (operand : Value) :
    applyUnary (f operator) operand =
      (applyUnary operator operand).mapError (RuntimeError.map f) := by
  unfold applyUnary
  rw [keeps.kind]
  split <;> rfl

theorem applyBinary_map (operator : Token) (left right : Value) :
    applyBinary (f operator) left right =
      (applyBinary operator left right).mapError (RuntimeError.map f) := by
  unfold applyBinary
  rw [keeps.kind]
  split
  · rfl
  · rfl
  · split <;> rfl
  · split
    · split <;> rfl
    · rfl

theorem stopsAt_map (operator : Token) (left : Value) :
    stopsAt (f operator) left = stopsAt operator left := by
  unfold stopsAt
  rw [keeps.kind]

namespace Interpreter

theorem get_map (name : Token) : (get (f name) : Run W Value) = Run.relabel f (get name) := by
  funext state
  simp only [get, Run.relabel, keeps.lexeme]
  cases state.scopes.get? state.current name.lexeme with
  -- The error names the variable, and the new token has the same name.
  | none => simp [RuntimeError.undefined, RuntimeError.map, keeps.lexeme]
  | some value => rfl

theorem assign_map (name : Token) (value : Value) :
    (assign (f name) value : Run W Unit) = Run.relabel f (assign name value) := by
  funext state
  simp only [assign, Run.relabel, keeps.lexeme]
  cases state.scopes.owner? state.current name.lexeme with
  | none => simp [RuntimeError.undefined, RuntimeError.map, keeps.lexeme]
  | some owner => rfl

omit keeps in
theorem print_map [Writer W] (keyword : Token) (value : Value) :
    (print (f keyword) value : Run W Unit) = Run.relabel f (print keyword value) := by
  funext state
  simp only [print, Run.relabel]
  rcases Writer.write state.sink (value.text ++ "\n").toUTF8 with ⟨_ | _, _⟩ <;> rfl

omit keeps in
theorem define_relabel (name : String) (value : Value) :
    Run.relabel f (define name value : Run W Unit) = define name value := rfl

end Interpreter

/-! ### Trees -/

theorem Expr.eval_map (expr : Expr) :
    ((expr.map f).eval : Run W Value) = Run.relabel f expr.eval := by
  induction expr with
  | assign name value ih =>
    simp only [map, eval, Run.relabel_bind, ih, Interpreter.assign_map keeps, Run.relabel_pure]
  | binary left operator right ihLeft ihRight =>
    simp only [map, eval, Run.relabel_bind, ihLeft, ihRight, Run.relabel_lift,
      applyBinary_map keeps]
  | group inner ih => simp only [map, eval, ih]
  | literal value => rfl
  | logical left operator right ihLeft ihRight =>
    simp only [map, eval, Run.relabel_bind, ihLeft, ihRight, stopsAt_map keeps]
    -- Whether the right side is evaluated depends on the value of the left one.
    congr 1
    funext value
    split <;> rfl
  | unary operator operand ih =>
    simp only [map, eval, Run.relabel_bind, ih, Run.relabel_lift, applyUnary_map keeps]
  | lookup name => simp only [map, eval, Interpreter.get_map keeps]

end

variable [Writer W]

mutual

theorem Stmt.exec_map {f : Token → Token} (keeps : Run.Keeps f) (stmt : Stmt) :
    ((stmt.map f).exec : Run W Unit) = Run.relabel f stmt.exec := by
  match stmt with
  | .block body =>
    simp only [map, exec, Run.relabel_inBlock, execAll_map keeps body]
  | .expression value =>
    simp only [map, exec, Run.relabel_bind, Expr.eval_map keeps, Run.relabel_pure]
  | .ifThen condition consequent =>
    simp only [map, exec, Run.relabel_bind, Expr.eval_map keeps, exec_map keeps consequent]
    -- Which branch is taken depends on the value of the condition.
    congr 1
    funext value
    split <;> rfl
  | .ifElse condition consequent alternative =>
    simp only [map, exec, Run.relabel_bind, Expr.eval_map keeps, exec_map keeps consequent,
      exec_map keeps alternative]
    congr 1
    funext value
    split <;> rfl
  | .print keyword value =>
    simp only [map, exec, Run.relabel_bind, Expr.eval_map keeps, Interpreter.print_map]
  | .var name none => simp only [map, exec, keeps.lexeme, Interpreter.define_relabel]
  | .var name (some initializer) =>
    simp only [map, exec, Run.relabel_bind, Expr.eval_map keeps, keeps.lexeme,
      Interpreter.define_relabel]

/-- A run commutes with replacing the tokens of its program. -/
theorem Stmt.execAll_map {f : Token → Token} (keeps : Run.Keeps f) (stmts : List Stmt) :
    (execAll (mapAll f stmts) : Run W Unit) = Run.relabel f (execAll stmts) := by
  match stmts with
  | [] => rfl
  | first :: rest =>
    simp only [mapAll, execAll, Run.relabel_bind, exec_map keeps first, execAll_map keeps rest]

end

end BlockScript
