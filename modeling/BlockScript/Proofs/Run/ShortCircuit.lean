import BlockScript.Run.Evaluation

/-!
# Laws of the logical operators

## Main result

`Interpreter.evaluate_logical`: `or` and `and` are associative, and an exclamation mark in front of
one of them may be moved to the operands of the other. The laws are about the whole outcome: the
same operands run, in the same order, and they leave the same state.

## Proof strategy

The two operators are one computation, which stops at a left operand that counts as true or at one
that counts as false (`Run.decided`). So there is one law for the order of operands that are
connected (`Run.decided_assoc`) and one for their negation (`Run.negated_decided`), and both follow
from the laws of the monad by cases on what decides.
-/

namespace BlockScript

variable {W : Type}

/-! ### Trees -/

/-- Whether an expression is two operands with a logical operator between them, in any number of
parentheses. -/
inductive Expr.Connects (word : Keyword) (left right : Expr) : Expr → Prop where
  | logical {operator : Token} (kind : operator.kind = .keyword word) :
      Connects word left right (.logical left operator right)
  | group {inner : Expr} (connects : Connects word left right inner) :
      Connects word left right (.group inner)

/-- Whether an expression is an operand behind an exclamation mark, in any number of
parentheses. -/
inductive Expr.Negates (operand : Expr) : Expr → Prop where
  | unary {operator : Token} (kind : operator.kind = .symbol .bang) :
      Negates operand (.unary operator operand)
  | group {inner : Expr} (negates : Negates operand inner) : Negates operand (.group inner)

/-! ### Computations -/

namespace Run

/-- The value of the first computation if its truth decides, or else that of the second. -/
def decided (truth : Bool) (first second : Run W Value) : Run W Value := do
  let value ← first
  if value.isTruthy = truth then pure value else second

/-- Whether the value of a computation counts as false. -/
def negated (operand : Run W Value) : Run W Value := do
  let value ← operand
  pure (.bool (!value.isTruthy))

theorem decided_assoc (truth : Bool) (first second third : Run W Value) :
    decided truth (decided truth first second) third =
      decided truth first (decided truth second third) := by
  simp only [decided, bind_assoc]
  refine bind_congr fun value => ?_
  by_cases decides : value.isTruthy = truth
  · simp only [if_pos decides, pure_bind]
  · simp only [if_neg decides]

theorem negated_decided (truth : Bool) (first second : Run W Value) :
    negated (decided truth first second) = decided (!truth) (negated first) (negated second) := by
  have isTruthy_bool (value : Bool) : (Value.bool value).isTruthy = value := rfl
  simp only [negated, decided, bind_assoc, pure_bind, isTruthy_bool, Bool.not_inj_iff]
  -- What is negated decides where it would not have, the other way round.
  refine bind_congr fun value => ?_
  by_cases decides : value.isTruthy = truth
  · simp only [if_pos decides, pure_bind]
  · simp only [if_neg decides]

end Run

namespace Expr

variable {left right operand expr : Expr}

theorem Connects.eval_or (connects : Connects .or_ left right expr) :
    (expr.eval : Run W Value) = Run.decided true left.eval right.eval := by
  induction connects with
  | logical kind => simp only [eval, Run.decided, stopsAt, kind]
  | group _ ih => exact ih

theorem Connects.eval_and (connects : Connects .and_ left right expr) :
    (expr.eval : Run W Value) = Run.decided false left.eval right.eval := by
  induction connects with
  | logical kind => simp only [eval, Run.decided, stopsAt, kind, Bool.not_eq_true']
  | group _ ih => exact ih

theorem Negates.eval_eq (negates : Negates operand expr) :
    (expr.eval : Run W Value) = Run.negated operand.eval := by
  induction negates with
  | unary kind =>
    simp only [eval, Run.negated, applyUnary, kind]
    rfl
  | group _ ih => exact ih

end Expr

/-! ### Main theorem -/

namespace Interpreter

/-- **Laws of the logical operators**, effects included. Whatever the operands do, the two sides of
each law give the same value or the same error and leave the same state. A logical expression that
has a value has that of an operand: of the left one, which has decided, or else of the right one,
which has then been evaluated from the state that the left one has left. -/
theorem evaluate_logical (a b c : Expr) (state : Interpreter W) :
    (∀ ab bc one other, Expr.Connects .or_ a b ab → Expr.Connects .or_ ab c one →
      Expr.Connects .or_ b c bc → Expr.Connects .or_ a bc other →
      state.evaluate (.eval one) [] = state.evaluate (.eval other) []) ∧
    (∀ ab bc one other, Expr.Connects .and_ a b ab → Expr.Connects .and_ ab c one →
      Expr.Connects .and_ b c bc → Expr.Connects .and_ a bc other →
      state.evaluate (.eval one) [] = state.evaluate (.eval other) []) ∧
    (∀ ab notA notB one other, Expr.Connects .and_ a b ab → Expr.Negates ab one →
      Expr.Negates a notA → Expr.Negates b notB → Expr.Connects .or_ notA notB other →
      state.evaluate (.eval one) [] = state.evaluate (.eval other) []) ∧
    (∀ ab notA notB one other, Expr.Connects .or_ a b ab → Expr.Negates ab one →
      Expr.Negates a notA → Expr.Negates b notB → Expr.Connects .and_ notA notB other →
      state.evaluate (.eval one) [] = state.evaluate (.eval other) []) ∧
    ∀ operator value last,
      state.evaluate (.eval (.logical a operator b)) [] = (.ok value, last) →
        (stopsAt operator value = true ∧ state.evaluate (.eval a) [] = (.ok value, last)) ∨
        ∃ left between, stopsAt operator left = false ∧
          state.evaluate (.eval a) [] = (.ok left, between) ∧
          between.evaluate (.eval b) [] = (.ok value, last) := by
  simp only [evaluate_eq]
  refine ⟨?_, ?_, ?_, ?_, ?_⟩
  · intro ab bc one other hab hone hbc hother
    rw [hone.eval_or, hab.eval_or, hother.eval_or, hbc.eval_or, Run.decided_assoc]
  · intro ab bc one other hab hone hbc hother
    rw [hone.eval_and, hab.eval_and, hother.eval_and, hbc.eval_and, Run.decided_assoc]
  · intro ab notA notB one other hab hone hnotA hnotB hother
    rw [hone.eval_eq, hab.eval_and, hother.eval_or, hnotA.eval_eq, hnotB.eval_eq,
      Run.negated_decided, Bool.not_false]
  · intro ab notA notB one other hab hone hnotA hnotB hother
    rw [hone.eval_eq, hab.eval_or, hother.eval_and, hnotA.eval_eq, hnotB.eval_eq,
      Run.negated_decided, Bool.not_true]
  · intro operator value last
    rw [Expr.eval, Run.bind_apply]
    rcases a.eval state with ⟨_ | left, between⟩
    · intro fails
      cases fails
    · intro ends
      cases decides : stopsAt operator left with
      | true =>
        simp only [decides, if_true, Run.pure_apply] at ends
        cases ends
        exact .inl ⟨decides, rfl⟩
      | false =>
        simp only [decides, Bool.false_eq_true, if_false] at ends
        exact .inr ⟨left, between, decides, rfl, ends⟩

end Interpreter
end BlockScript
