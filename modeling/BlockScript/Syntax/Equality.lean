import BlockScript.Syntax.Tree
import BlockScript.Worklist

/-!
# Equality of trees

Two trees are the same when they have the same shape and their tokens and literals
are equal by `==`: lines count, a binary node never equals a logical one, and numbers
compare as IEEE doubles, so a tree that holds NaN differs from itself.

`Expr.same` and `Stmt.same` define this by recursion on the tree. `Pair.allSame`
decides it for deep trees with a list of the pairs still to be compared;
`Pair.allSame_eq` says that the two agree.
-/
namespace BlockScript

def Expr.same : Expr → Expr → Bool
  | .assign name value, .assign otherName other => name == otherName && value.same other
  | .binary left operator right, .binary otherLeft otherOperator otherRight =>
    operator == otherOperator && left.same otherLeft && right.same otherRight
  | .group inner, .group other => inner.same other
  | .literal value, .literal other => value == other
  | .logical left operator right, .logical otherLeft otherOperator otherRight =>
    operator == otherOperator && left.same otherLeft && right.same otherRight
  | .unary operator operand, .unary otherOperator other =>
    operator == otherOperator && operand.same other
  | .lookup name, .lookup otherName => name == otherName
  | _, _ => false

instance : BEq Expr := ⟨Expr.same⟩

mutual

def Stmt.same : Stmt → Stmt → Bool
  | .block body, .block other => Stmt.sameAll body other
  | .expression value, .expression other => value.same other
  | .ifThen condition consequent, .ifThen otherCondition otherConsequent =>
    condition.same otherCondition && consequent.same otherConsequent
  | .ifElse condition consequent alternative,
      .ifElse otherCondition otherConsequent otherAlternative =>
    condition.same otherCondition && consequent.same otherConsequent &&
      alternative.same otherAlternative
  | .print keyword value, .print otherKeyword other =>
    keyword == otherKeyword && value.same other
  | .var name none, .var otherName none => name == otherName
  | .var name (some initializer), .var otherName (some other) =>
    name == otherName && initializer.same other
  | _, _ => false

def Stmt.sameAll : List Stmt → List Stmt → Bool
  | [], [] => true
  | first :: rest, other :: others => first.same other && Stmt.sameAll rest others
  | _, _ => false

end

instance : BEq Stmt := ⟨Stmt.same⟩

/-! ### Comparing without recursion on the tree -/

/-- Two trees still to be compared. -/
inductive Pair where
  | exprs (left right : Expr)
  | stmts (left right : Stmt)
  | bodies (left right : List Stmt)

namespace Pair

def same : Pair → Bool
  | exprs left right => left.same right
  | stmts left right => left.same right
  | bodies left right => Stmt.sameAll left right

def weight : Pair → Nat
  | exprs left _ => left.size
  | stmts left _ => left.size
  | bodies left _ => Stmt.sizeAll left

def allSame (pairs : List Pair) : Bool :=
  match pairs with
  | [] => true
  | .exprs left right :: rest =>
    match left, right with
    | .assign name value, .assign otherName other =>
      if name == otherName then allSame (.exprs value other :: rest) else false
    | .binary left operator right, .binary otherLeft otherOperator otherRight =>
      if operator == otherOperator then
        allSame (.exprs left otherLeft :: .exprs right otherRight :: rest)
      else false
    | .group inner, .group other => allSame (.exprs inner other :: rest)
    | .literal value, .literal other => if value == other then allSame rest else false
    | .logical left operator right, .logical otherLeft otherOperator otherRight =>
      if operator == otherOperator then
        allSame (.exprs left otherLeft :: .exprs right otherRight :: rest)
      else false
    | .unary operator operand, .unary otherOperator other =>
      if operator == otherOperator then allSame (.exprs operand other :: rest) else false
    | .lookup name, .lookup otherName => if name == otherName then allSame rest else false
    | _, _ => false
  | .stmts left right :: rest =>
    match left, right with
    | .block body, .block other => allSame (.bodies body other :: rest)
    | .expression value, .expression other => allSame (.exprs value other :: rest)
    | .ifThen condition consequent, .ifThen otherCondition otherConsequent =>
      allSame
        (.exprs condition otherCondition :: .stmts consequent otherConsequent :: rest)
    | .ifElse condition consequent alternative,
        .ifElse otherCondition otherConsequent otherAlternative =>
      allSame
        (.exprs condition otherCondition :: .stmts consequent otherConsequent ::
          .stmts alternative otherAlternative :: rest)
    | .print keyword value, .print otherKeyword other =>
      if keyword == otherKeyword then allSame (.exprs value other :: rest) else false
    | .var name none, .var otherName none => if name == otherName then allSame rest else false
    | .var name (some initializer), .var otherName (some other) =>
      if name == otherName then allSame (.exprs initializer other :: rest) else false
    | _, _ => false
  | .bodies [] [] :: rest => allSame rest
  | .bodies (first :: later) (other :: others) :: rest =>
    allSame (.stmts first other :: .bodies later others :: rest)
  | .bodies _ _ :: _ => false
termination_by Worklist.total weight pairs
decreasing_by
  all_goals
    simp only [Worklist.total, weight, Expr.size, Stmt.size, Stmt.sizeAll]
    omega

/-- Comparing pair after pair finds a difference exactly if some pair has one. -/
theorem allSame_eq (pairs : List Pair) : allSame pairs = pairs.all same := by
  fun_induction allSame pairs <;> simp_all [same, Expr.same, Stmt.same, Stmt.sameAll, Bool.and_assoc]

end Pair

def Stmt.equal (left right : Stmt) : Bool :=
  Pair.allSame [.stmts left right]

def Program.equal (left right : Program) : Bool :=
  Pair.allSame [.bodies left right]

theorem Stmt.equal_eq (left right : Stmt) : left.equal right = (left == right) := by
  rw [Stmt.equal, Pair.allSame_eq]
  simp [Pair.same, BEq.beq]

theorem Program.equal_eq (left right : Program) :
    Program.equal left right = Stmt.sameAll left right := by
  rw [Program.equal, Pair.allSame_eq]
  simp [Pair.same]

end BlockScript
