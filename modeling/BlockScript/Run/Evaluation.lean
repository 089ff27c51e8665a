import BlockScript.Run.Semantics
import BlockScript.Worklist

/-!
# Evaluating deep expressions

Evaluation by recursion on the tree would need as much of the call stack as the tree is
deep. The loop here keeps the operators that wait for an operand in a list instead.

Main statement: `evaluate_eval`, by which the loop finds the value that the expression
means and then goes on with its list; hence `evaluate_eq`. Proof strategy: the statement
holds for every list, by induction on the tree.
-/
namespace BlockScript

/-- What an evaluation goes on with when the value of an operand is known. -/
inductive Pending where
  | assign (name : Token)
  | unary (operator : Token)
  /-- The left operand is being evaluated. -/
  | right (operator : Token) (right : Expr)
  /-- The right operand is being evaluated. -/
  | binary (left : Value) (operator : Token)
  | logical (operator : Token) (right : Expr)

inductive Control where
  | eval (expr : Expr)
  | value (value : Value)

namespace Pending

def weight : Pending → Nat
  | assign _ => 1
  | unary _ => 1
  | right _ operand => 3 * operand.size + 2
  | binary _ _ => 1
  | logical _ operand => 3 * operand.size + 1

end Pending

namespace Control

def weight : Control → Nat
  | eval expr => 3 * expr.size
  | value _ => 0

end Control

variable {W : Type}

namespace Interpreter

/-- Evaluates, then goes on with everything pending, the first first. -/
def evaluate (state : Interpreter W) (control : Control) (pending : List Pending) :
    Except RuntimeError Value × Interpreter W :=
  match control with
  | .eval (.assign name value) => evaluate state (.eval value) (.assign name :: pending)
  -- The left operand comes first; the right one waits for it.
  | .eval (.binary left operator right) =>
    evaluate state (.eval left) (.right operator right :: pending)
  | .eval (.group inner) => evaluate state (.eval inner) pending
  | .eval (.literal value) => evaluate state (.value value) pending
  | .eval (.logical left operator right) =>
    evaluate state (.eval left) (.logical operator right :: pending)
  | .eval (.unary operator operand) =>
    evaluate state (.eval operand) (.unary operator :: pending)
  | .eval (.lookup name) =>
    match Interpreter.get name state with
    | (.ok value, state) => evaluate state (.value value) pending
    | (.error error, state) => (.error error, state)
  | .value value =>
    match pending with
    | [] => (.ok value, state)
    | .assign name :: pending =>
      match Interpreter.assign name value state with
      | (.ok _, state) => evaluate state (.value value) pending
      | (.error error, state) => (.error error, state)
    | .unary operator :: pending =>
      match applyUnary operator value with
      | .ok value => evaluate state (.value value) pending
      | .error error => (.error error, state)
    | .right operator right :: pending =>
      evaluate state (.eval right) (.binary value operator :: pending)
    | .binary left operator :: pending =>
      match applyBinary operator left value with
      | .ok value => evaluate state (.value value) pending
      | .error error => (.error error, state)
    -- The value of the operator is the value of one of its operands, never a truth value
    -- made from it.
    | .logical operator right :: pending =>
      if stopsAt operator value then evaluate state (.value value) pending
      else evaluate state (.eval right) pending
termination_by control.weight + Worklist.total Pending.weight pending
decreasing_by
  all_goals
    simp only [Worklist.total, Control.weight, Pending.weight, Expr.size]
    omega

/-- Evaluating an expression gives its value to what is pending. -/
theorem evaluate_eval (expr : Expr) (state : Interpreter W) (pending : List Pending) :
    evaluate state (.eval expr) pending =
      match expr.eval state with
      | (.ok value, state) => evaluate state (.value value) pending
      | (.error error, state) => (.error error, state) := by
  induction expr generalizing state pending with
  | assign name value ih =>
    rw [evaluate, ih, Expr.eval, Run.bind_apply]
    rcases value.eval state with ⟨_ | found, state⟩
    · rfl
    · simp only [evaluate, Run.bind_apply]
      rcases Interpreter.assign name found state with ⟨_ | _, state⟩ <;> rfl
  | binary left operator right ihLeft ihRight =>
    rw [evaluate, ihLeft, Expr.eval, Run.bind_apply]
    rcases left.eval state with ⟨_ | found, state⟩
    · rfl
    · simp only [evaluate, Run.bind_apply, ihRight]
      rcases right.eval state with ⟨_ | other, state⟩
      · rfl
      · simp only [Run.lift_apply]
        cases applyBinary operator found other <;> rfl
  | group inner ih =>
    rw [evaluate, ih]
    rfl
  | literal value =>
    rw [evaluate]
    rfl
  | logical left operator right ihLeft ihRight =>
    rw [evaluate, ihLeft, Expr.eval, Run.bind_apply]
    rcases left.eval state with ⟨_ | found, state⟩
    · rfl
    · simp only [evaluate]
      cases stopsAt operator found with
      | true => rfl
      | false => exact ihRight state pending
  | unary operator operand ih =>
    rw [evaluate, ih, Expr.eval, Run.bind_apply]
    rcases operand.eval state with ⟨_ | found, state⟩
    · rfl
    · simp only [evaluate, Run.lift_apply]
      cases applyUnary operator found <;> rfl
  | lookup name =>
    rw [evaluate]
    rfl

/-- With nothing pending the value of the expression is the result. -/
theorem evaluate_eq (expr : Expr) (state : Interpreter W) :
    evaluate state (.eval expr) [] = expr.eval state := by
  rw [evaluate_eval]
  rcases expr.eval state with ⟨_ | found, state⟩
  · rfl
  · simp only [evaluate]

end Interpreter
end BlockScript
