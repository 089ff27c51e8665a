import BlockScript.Proofs.Grammar.Parts
import BlockScript.Syntax.Equality
import Mathlib

/-!
# Equality of trees is a partial equivalence

## Main result

`equal_isPartialEquivalence`: equality of expressions, of statements and of programs is symmetric
and transitive, and a tree equals itself if and only if it holds no NaN. Programs that have been
read are equal if and only if they are the same.

## Proof strategy

1. Two trees are equal if and only if neither of them holds a NaN and they are the same when zeros
   have lost their signs (`Expr.same_iff`, `Stmt.same_iff`). This is the only induction on pairs of
   trees, and everything else follows from it as it would for numbers.
2. The tokens of a program that has been read carry no numbers, and its literals are numbers that
   numerals stand for: none of these is a NaN or has a sign.
-/

namespace BlockScript

/-! ### Numbers -/

namespace Number

/-- The number, but zero without its sign. -/
def unsigned (x : Float) : Float :=
  if x == 0 then 0 else x

/-- Numbers are equal if neither is a NaN and they are the same but for the sign of zero. -/
theorem beq_iff {x y : Float} :
    (x == y) = true ↔ (x.isNaN = false ∧ y.isNaN = false) ∧ unsigned x = unsigned y := by
  have zero : (0 : Float) ≠ Float.nan := by decide +kernel
  have negative : (-0 : Float) ≠ Float.nan := by decide +kernel
  simp only [unsigned, Float.isNaN_eq_decide_eq_nan, Float.beq_iff_ne_nan_and_eq]
  grind

/-- The patterns of NaN and of negative zero lie above that of infinity. -/
theorem ne_of_toBits_le {x : Float} (bound : x.toBits.toNat ≤ Binary.infinity) :
    x ≠ Float.nan ∧ x ≠ -0 := by
  constructor <;> rintro rfl <;> exact absurd bound (by decide +kernel)

variable (whole fraction : List Char)

theorem toBits_ofNumeral_le : (ofNumeral whole fraction).toBits.toNat ≤ Binary.infinity := by
  rw [toBits_ofNumeral]
  exact Binary.nearest_le _ _

theorem isNaN_ofNumeral : (ofNumeral whole fraction).isNaN = false := by
  simpa [Float.isNaN_eq_decide_eq_nan] using (ne_of_toBits_le (toBits_ofNumeral_le _ _)).1

theorem unsigned_ofNumeral : unsigned (ofNumeral whole fraction) = ofNumeral whole fraction := by
  unfold unsigned
  split
  next zero =>
    obtain ⟨-, -, same | ⟨-, impossible⟩ | ⟨negative, -⟩⟩ := Float.beq_iff_ne_nan_and_eq.mp zero
    · exact same.symm
    · exact absurd impossible (by decide +kernel)
    · exact absurd negative (ne_of_toBits_le (toBits_ofNumeral_le _ _)).2
  next => rfl

end Number

/-! ### The numbers of a tree -/

def Literal.numbers : Literal → List Float
  | .number x => [x]
  | .string _ => []

/-- The number that a token carries, if it carries one. -/
def Token.numbers (token : Token) : List Float :=
  token.literal.elim [] Literal.numbers

def Value.numbers : Value → List Float
  | .number x => [x]
  | _ => []

/-- The numbers of an expression: those of its literals, and those that its tokens carry. -/
def Expr.numbers : Expr → List Float
  | .assign name value => name.numbers ++ value.numbers
  | .binary left operator right => left.numbers ++ operator.numbers ++ right.numbers
  | .group inner => inner.numbers
  | .literal value => value.numbers
  | .logical left operator right => left.numbers ++ operator.numbers ++ right.numbers
  | .unary operator operand => operator.numbers ++ operand.numbers
  | .lookup name => name.numbers

mutual

def Stmt.numbers : Stmt → List Float
  | .block body => Stmt.allNumbers body
  | .expression value => value.numbers
  | .ifThen condition consequent => condition.numbers ++ consequent.numbers
  | .ifElse condition consequent alternative =>
    condition.numbers ++ consequent.numbers ++ alternative.numbers
  | .print keyword value => keyword.numbers ++ value.numbers
  | .var name initializer => name.numbers ++ initializer.elim [] Expr.numbers

def Stmt.allNumbers : List Stmt → List Float
  | [] => []
  | first :: rest => first.numbers ++ Stmt.allNumbers rest

end

/-! ### Trees without signs of zeros -/

def Literal.unsigned : Literal → Literal
  | .number x => .number (Number.unsigned x)
  | .string body => .string body

def Token.unsigned (token : Token) : Token :=
  { token with literal := token.literal.map Literal.unsigned }

def Value.unsigned : Value → Value
  | .number x => .number (Number.unsigned x)
  | value => value

def Expr.unsigned : Expr → Expr
  | .assign name value => .assign name.unsigned value.unsigned
  | .binary left operator right => .binary left.unsigned operator.unsigned right.unsigned
  | .group inner => .group inner.unsigned
  | .literal value => .literal value.unsigned
  | .logical left operator right => .logical left.unsigned operator.unsigned right.unsigned
  | .unary operator operand => .unary operator.unsigned operand.unsigned
  | .lookup name => .lookup name.unsigned

mutual

def Stmt.unsigned : Stmt → Stmt
  | .block body => .block (Stmt.allUnsigned body)
  | .expression value => .expression value.unsigned
  | .ifThen condition consequent => .ifThen condition.unsigned consequent.unsigned
  | .ifElse condition consequent alternative =>
    .ifElse condition.unsigned consequent.unsigned alternative.unsigned
  | .print keyword value => .print keyword.unsigned value.unsigned
  | .var name initializer => .var name.unsigned (initializer.map Expr.unsigned)

def Stmt.allUnsigned : List Stmt → List Stmt
  | [] => []
  | first :: rest => first.unsigned :: Stmt.allUnsigned rest

end

/-! ### What equality compares -/

/-- Whether none of some numbers is a NaN. -/
def NoNaN (numbers : List Float) : Prop :=
  ∀ x ∈ numbers, x.isNaN = false

@[simp] theorem noNaN_nil : NoNaN [] := by
  simp [NoNaN]

@[simp] theorem noNaN_singleton {x : Float} : NoNaN [x] ↔ x.isNaN = false := by
  simp [NoNaN]

@[simp] theorem noNaN_append {numbers more : List Float} :
    NoNaN (numbers ++ more) ↔ NoNaN numbers ∧ NoNaN more :=
  List.forall_mem_append

theorem Literal.beq_iff (left right : Literal) :
    (left == right) = true ↔
      (NoNaN left.numbers ∧ NoNaN right.numbers) ∧ left.unsigned = right.unsigned := by
  cases left with
  | number x =>
    cases right with
    | number y =>
      change (x == y) = true ↔ _
      simp only [Number.beq_iff, numbers, noNaN_singleton, unsigned, number.injEq]
    | string => simp [BEq.beq, instBEqLiteral.beq, unsigned]
  | string body =>
    cases right with
    | number => simp [BEq.beq, instBEqLiteral.beq, unsigned]
    | string other =>
      change (body == other) = true ↔ _
      simp [numbers, unsigned]

theorem Value.beq_iff (left right : Value) :
    (left == right) = true ↔
      (NoNaN left.numbers ∧ NoNaN right.numbers) ∧ left.unsigned = right.unsigned := by
  cases left with
  | nil => cases right <;> simp [BEq.beq, instBEqValue.beq, numbers, unsigned]
  | bool value =>
    cases right with
    | bool other =>
      change (value == other) = true ↔ _
      simp [numbers, unsigned]
    | nil | number | string => simp [BEq.beq, instBEqValue.beq, unsigned]
  | number x =>
    cases right with
    | number y =>
      change (x == y) = true ↔ _
      simp only [Number.beq_iff, numbers, noNaN_singleton, unsigned, number.injEq]
    | nil | bool | string => simp [BEq.beq, instBEqValue.beq, unsigned]
  | string body =>
    cases right with
    | string other =>
      change (body == other) = true ↔ _
      simp [numbers, unsigned]
    | nil | bool | number => simp [BEq.beq, instBEqValue.beq, unsigned]

theorem Token.beq_iff (left right : Token) :
    (left == right) = true ↔
      (NoNaN left.numbers ∧ NoNaN right.numbers) ∧ left.unsigned = right.unsigned := by
  obtain ⟨kind, lexeme, literal, line⟩ := left
  obtain ⟨otherKind, otherLexeme, other, otherLine⟩ := right
  change (kind == otherKind && (lexeme == otherLexeme && (literal == other && line == otherLine))) =
    true ↔ _
  have literals : (literal == other) = true ↔
      (NoNaN (literal.elim [] Literal.numbers) ∧ NoNaN (other.elim [] Literal.numbers)) ∧
        literal.map Literal.unsigned = other.map Literal.unsigned := by
    cases literal <;> cases other <;> simp [Literal.beq_iff]
  simp only [Bool.and_eq_true, beq_iff_eq, literals, numbers, unsigned, mk.injEq]
  tauto

theorem Expr.same_iff (left right : Expr) :
    left.same right = true ↔
      (NoNaN left.numbers ∧ NoNaN right.numbers) ∧ left.unsigned = right.unsigned := by
  induction left generalizing right with
  | assign name value ih =>
    cases right with
    | assign =>
      simp only [same, Bool.and_eq_true, Token.beq_iff, ih, numbers, noNaN_append, unsigned,
        assign.injEq]
      tauto
    | _ => simp [same, unsigned]
  | binary first operator second ihFirst ihSecond =>
    cases right with
    | binary =>
      simp only [same, Bool.and_eq_true, Token.beq_iff, ihFirst, ihSecond, numbers, noNaN_append,
        unsigned, binary.injEq]
      tauto
    | _ => simp [same, unsigned]
  | group inner ih =>
    cases right with
    | group => simp only [same, ih, numbers, unsigned, group.injEq]
    | _ => simp [same, unsigned]
  | literal value =>
    cases right with
    | literal => simp only [same, Value.beq_iff, numbers, unsigned, literal.injEq]
    | _ => simp [same, unsigned]
  | logical first operator second ihFirst ihSecond =>
    cases right with
    | logical =>
      simp only [same, Bool.and_eq_true, Token.beq_iff, ihFirst, ihSecond, numbers, noNaN_append,
        unsigned, logical.injEq]
      tauto
    | _ => simp [same, unsigned]
  | unary operator operand ih =>
    cases right with
    | unary =>
      simp only [same, Bool.and_eq_true, Token.beq_iff, ih, numbers, noNaN_append, unsigned,
        unary.injEq]
      tauto
    | _ => simp [same, unsigned]
  | lookup name =>
    cases right with
    | lookup => simp only [same, Token.beq_iff, numbers, unsigned, lookup.injEq]
    | _ => simp [same, unsigned]

mutual

theorem Stmt.same_iff (left right : Stmt) :
    left.same right = true ↔
      (NoNaN left.numbers ∧ NoNaN right.numbers) ∧ left.unsigned = right.unsigned := by
  match left with
  | .block body =>
    cases right with
    | block => simp only [same, sameAll_iff body, numbers, unsigned, block.injEq]
    | _ => simp [same, unsigned]
  | .expression value =>
    cases right with
    | expression => simp only [same, Expr.same_iff, numbers, unsigned, expression.injEq]
    | _ => simp [same, unsigned]
  | .ifThen condition consequent =>
    cases right with
    | ifThen =>
      simp only [same, Bool.and_eq_true, Expr.same_iff, same_iff consequent, numbers, noNaN_append,
        unsigned, ifThen.injEq]
      tauto
    | _ => simp [same, unsigned]
  | .ifElse condition consequent alternative =>
    cases right with
    | ifElse =>
      simp only [same, Bool.and_eq_true, Expr.same_iff, same_iff consequent, same_iff alternative,
        numbers, noNaN_append, unsigned, ifElse.injEq]
      tauto
    | _ => simp [same, unsigned]
  | .print keyword value =>
    cases right with
    | print =>
      simp only [same, Bool.and_eq_true, Token.beq_iff, Expr.same_iff, numbers, noNaN_append,
        unsigned, print.injEq]
      tauto
    | _ => simp [same, unsigned]
  | .var name initializer =>
    cases right with
    | var _ other =>
      -- A declaration without an initializer never equals one with it.
      cases initializer <;> cases other <;>
        simp only [same, Bool.and_eq_true, Token.beq_iff, Expr.same_iff, numbers, noNaN_append,
          noNaN_nil, unsigned, var.injEq, Option.map, Option.elim, Option.some.injEq, reduceCtorEq]
      all_goals tauto
    | _ => simp [same, unsigned]

theorem Stmt.sameAll_iff (stmts others : List Stmt) :
    Stmt.sameAll stmts others = true ↔
      (NoNaN (Stmt.allNumbers stmts) ∧ NoNaN (Stmt.allNumbers others)) ∧
        Stmt.allUnsigned stmts = Stmt.allUnsigned others := by
  match stmts with
  | [] => cases others <;> simp [sameAll, allNumbers, allUnsigned]
  | first :: rest =>
    cases others with
    | nil => simp [sameAll, allUnsigned]
    | cons =>
      simp only [sameAll, Bool.and_eq_true, same_iff first, sameAll_iff rest, allNumbers,
        noNaN_append, allUnsigned, List.cons.injEq]
      tauto

end

/-! ### Partial equivalences -/

/-- Whether a comparison is symmetric and transitive, and things equal themselves if and only if
none of their numbers is a NaN. -/
structure IsPartialEquivalence {α : Type} (same : α → α → Bool) (numbers : α → List Float) :
    Prop where
  symm : ∀ left right, same left right = same right left
  trans : ∀ first second third, same first second = true → same second third = true →
    same first third = true
  self : ∀ thing, same thing thing = true ↔ NoNaN (numbers thing)

/-- A comparison of what is left without signs is one, if it refuses NaN. -/
theorem isPartialEquivalence_of_iff {α : Type} {same : α → α → Bool} {numbers : α → List Float}
    (unsigned : α → α)
    (compares : ∀ left right, same left right = true ↔
      (NoNaN (numbers left) ∧ NoNaN (numbers right)) ∧ unsigned left = unsigned right) :
    IsPartialEquivalence same numbers := by
  refine ⟨fun left right => ?_, fun first second third => ?_, fun thing => ?_⟩
  · rw [Bool.eq_iff_iff, compares, compares, and_comm (a := NoNaN _), eq_comm]
  -- The one in the middle is not looked at again: it is the same as both others.
  · rw [compares, compares, compares]
    rintro ⟨⟨pure, -⟩, same⟩ ⟨⟨-, last⟩, next⟩
    exact ⟨⟨pure, last⟩, same.trans next⟩
  · simp [compares]

/-! ### Trees with no signs -/

theorem Token.unsigned_eq_self {token : Token}
    (fixed : ∀ x ∈ token.numbers, Number.unsigned x = x) : token.unsigned = token := by
  obtain ⟨kind, lexeme, literal, line⟩ := token
  match literal with
  | none | some (.string _) => rfl
  | some (.number x) =>
    have same : Number.unsigned x = x := fixed x (List.mem_singleton_self x)
    simp [unsigned, Literal.unsigned, same]

theorem Value.unsigned_eq_self {value : Value}
    (fixed : ∀ x ∈ value.numbers, Number.unsigned x = x) : value.unsigned = value := by
  cases value with
  | number x => rw [unsigned, fixed x (List.mem_singleton_self x)]
  | nil | bool | string => rfl

theorem Expr.unsigned_eq_self {expr : Expr}
    (fixed : ∀ x ∈ expr.numbers, Number.unsigned x = x) : expr.unsigned = expr := by
  induction expr with
  | assign _ _ ih =>
    obtain ⟨name, inside⟩ := List.forall_mem_append.mp fixed
    rw [unsigned, Token.unsigned_eq_self name, ih inside]
  | binary _ _ _ ihLeft ihRight | logical _ _ _ ihLeft ihRight =>
    obtain ⟨before, right⟩ := List.forall_mem_append.mp fixed
    obtain ⟨left, operator⟩ := List.forall_mem_append.mp before
    rw [unsigned, ihLeft left, Token.unsigned_eq_self operator, ihRight right]
  | group _ ih => rw [unsigned, ih fixed]
  | literal => rw [unsigned, Value.unsigned_eq_self fixed]
  | unary _ _ ih =>
    obtain ⟨operator, inside⟩ := List.forall_mem_append.mp fixed
    rw [unsigned, Token.unsigned_eq_self operator, ih inside]
  | lookup => rw [unsigned, Token.unsigned_eq_self fixed]

mutual

theorem Stmt.unsigned_eq_self (stmt : Stmt)
    (fixed : ∀ x ∈ stmt.numbers, Number.unsigned x = x) : stmt.unsigned = stmt := by
  match stmt with
  | .block body => rw [unsigned, allUnsigned_eq_self body fixed]
  | .expression _ => rw [unsigned, Expr.unsigned_eq_self fixed]
  | .ifThen _ consequent =>
    obtain ⟨condition, branch⟩ := List.forall_mem_append.mp fixed
    rw [unsigned, Expr.unsigned_eq_self condition, unsigned_eq_self consequent branch]
  | .ifElse _ consequent alternative =>
    obtain ⟨before, other⟩ := List.forall_mem_append.mp fixed
    obtain ⟨condition, branch⟩ := List.forall_mem_append.mp before
    rw [unsigned, Expr.unsigned_eq_self condition, unsigned_eq_self consequent branch,
      unsigned_eq_self alternative other]
  | .print _ _ =>
    obtain ⟨keyword, inside⟩ := List.forall_mem_append.mp fixed
    rw [unsigned, Token.unsigned_eq_self keyword, Expr.unsigned_eq_self inside]
  | .var _ initializer =>
    obtain ⟨name, inside⟩ := List.forall_mem_append.mp fixed
    rw [unsigned, Token.unsigned_eq_self name]
    cases initializer with
    | none => rfl
    | some => rw [Option.map_some, Expr.unsigned_eq_self inside]

theorem Stmt.allUnsigned_eq_self (stmts : List Stmt)
    (fixed : ∀ x ∈ Stmt.allNumbers stmts, Number.unsigned x = x) :
    Stmt.allUnsigned stmts = stmts := by
  match stmts with
  | [] => rfl
  | first :: rest =>
    obtain ⟨here, later⟩ := List.forall_mem_append.mp fixed
    rw [allUnsigned, unsigned_eq_self first here, allUnsigned_eq_self rest later]

end

/-! ### Programs that have been read -/

open Grammar

/-- The only tokens that carry numbers are those of numerals. -/
theorem Token.IsGenuine.numbers_eq_nil {token : Token} (genuine : token.IsGenuine)
    (kind : token.kind ≠ .number) : token.numbers = [] := by
  unfold IsGenuine at genuine
  unfold numbers
  generalize token.kind = kind, token.literal = literal, token.lexeme.toList = text
    at genuine kind ⊢
  cases genuine with
  | number => exact absurd rfl kind
  | symbol | keyword | identifier | string => rfl

section

variable {tokens : List Token}

theorem Expr.WellFormed.numbers_eq {expr : Expr} (formed : expr.WellFormed tokens)
    (genuine : Genuine tokens) : expr.numbers = expr.literals.flatMap Value.numbers := by
  induction expr with
  | assign name value ih =>
    obtain ⟨⟨member, named⟩, inside⟩ := formed
    have noNumber : name.kind ≠ .number := by simp [named]
    rw [numbers, literals, (genuine name member).numbers_eq_nil noNumber, ih inside,
      List.nil_append]
  | binary left operator right ihLeft ihRight | logical left operator right ihLeft ihRight =>
    obtain ⟨inLeft, ⟨member, _, -, kind⟩, inRight⟩ := formed
    rw [numbers, literals, ihLeft inLeft, ihRight inRight,
      (genuine operator member).numbers_eq_nil (ne_number_of_mem_operators kind),
      List.append_nil, List.flatMap_append]
  | group inner ih => exact ih formed
  | literal => exact (List.append_nil _).symm
  | unary operator operand ih =>
    obtain ⟨⟨member, kind⟩, inside⟩ := formed
    have noNumber : operator.kind ≠ .number := by rintro same; simp [same] at kind
    rw [numbers, literals, (genuine operator member).numbers_eq_nil noNumber, ih inside,
      List.nil_append]
  | lookup name =>
    have noNumber : name.kind ≠ .number := by simp [formed.2]
    exact (genuine name formed.1).numbers_eq_nil noNumber

mutual

theorem Stmt.WellFormed.numbers_eq (stmt : Stmt) (formed : stmt.WellFormed tokens)
    (genuine : Genuine tokens) : stmt.numbers = stmt.literals.flatMap Value.numbers := by
  match stmt with
  | .block body => exact AllWellFormed.numbers_eq body formed genuine
  | .expression _ => exact Expr.WellFormed.numbers_eq formed genuine
  | .ifThen _ consequent =>
    rw [numbers, literals, formed.1.numbers_eq genuine,
      WellFormed.numbers_eq consequent formed.2 genuine, List.flatMap_append]
  | .ifElse _ consequent alternative =>
    obtain ⟨condition, branch, other⟩ := formed
    rw [numbers, literals, condition.numbers_eq genuine,
      WellFormed.numbers_eq consequent branch genuine,
      WellFormed.numbers_eq alternative other genuine, List.flatMap_append, List.flatMap_append]
  | .print keyword _ =>
    obtain ⟨⟨member, word⟩, inside⟩ := formed
    have noNumber : keyword.kind ≠ .number := by simp [word]
    rw [numbers, literals, (genuine keyword member).numbers_eq_nil noNumber,
      inside.numbers_eq genuine, List.nil_append]
  | .var name none =>
    have noNumber : name.kind ≠ .number := by simp [formed.2]
    rw [numbers, literals, (genuine name formed.1).numbers_eq_nil noNumber]
    rfl
  | .var name (some initializer) =>
    obtain ⟨⟨member, named⟩, inside⟩ := formed
    have noNumber : name.kind ≠ .number := by simp [named]
    rw [numbers, literals, (genuine name member).numbers_eq_nil noNumber, Option.elim_some,
      inside.numbers_eq genuine, List.nil_append]

theorem Stmt.AllWellFormed.numbers_eq (stmts : List Stmt)
    (formed : Stmt.AllWellFormed tokens stmts) (genuine : Genuine tokens) :
    Stmt.allNumbers stmts = (Stmt.allLiterals stmts).flatMap Value.numbers := by
  match stmts with
  | [] => rfl
  | first :: rest =>
    rw [allNumbers, allLiterals, WellFormed.numbers_eq first formed.1 genuine,
      AllWellFormed.numbers_eq rest formed.2 genuine, List.flatMap_append]

end

end

/-- Every number of a program that has been read is one that a numeral stands for. -/
theorem exists_numeral_of_mem_allNumbers {source : String} {x : Float}
    (member : x ∈ Stmt.allNumbers (parse source).program) :
    ∃ whole fraction, x = Number.ofNumeral whole fraction := by
  obtain ⟨tokens, genuine, formed, read⟩ := exists_wellFormed_parse source
  rw [Stmt.AllWellFormed.numbers_eq _ formed genuine] at member
  obtain ⟨value, held, inside⟩ := List.mem_flatMap.mp member
  cases read value held with
  | number => exact ⟨_, _, List.mem_singleton.mp inside⟩
  | nil | bool | string => cases inside

theorem allUnsigned_parse (source : String) :
    Stmt.allUnsigned (parse source).program = (parse source).program := by
  refine Stmt.allUnsigned_eq_self _ fun x member => ?_
  obtain ⟨whole, fraction, rfl⟩ := exists_numeral_of_mem_allNumbers member
  exact Number.unsigned_ofNumeral whole fraction

theorem noNaN_parse (source : String) : NoNaN (Stmt.allNumbers (parse source).program) := by
  intro x member
  obtain ⟨whole, fraction, rfl⟩ := exists_numeral_of_mem_allNumbers member
  exact Number.isNaN_ofNumeral whole fraction

/-- **Equality of trees is a partial equivalence, and exact on what has been read.** Equality of
expressions, of statements and of programs is symmetric and transitive, and a tree equals itself
if and only if it holds no NaN, neither as a literal nor carried by a token. The programs that are
read of any two texts are equal if and only if they are the same: the same tree with the same
tokens, each of the same kind, lexeme and literal and on the same line. -/
theorem equal_isPartialEquivalence :
    IsPartialEquivalence (fun left right : Expr => left == right) Expr.numbers ∧
    IsPartialEquivalence Stmt.equal Stmt.numbers ∧
    IsPartialEquivalence Program.equal Stmt.allNumbers ∧
    ∀ source other : String,
      Program.equal (parse source).program (parse other).program = true ↔
        (parse source).program = (parse other).program := by
  refine ⟨isPartialEquivalence_of_iff Expr.unsigned Expr.same_iff, ?_, ?_, fun source other => ?_⟩
  · refine isPartialEquivalence_of_iff Stmt.unsigned fun left right => ?_
    rw [Stmt.equal_eq]
    exact Stmt.same_iff left right
  · refine isPartialEquivalence_of_iff Stmt.allUnsigned fun left right => ?_
    rw [Program.equal_eq]
    exact Stmt.sameAll_iff left right
  · rw [Program.equal_eq, Stmt.sameAll_iff, allUnsigned_parse, allUnsigned_parse]
    exact and_iff_right ⟨noNaN_parse source, noNaN_parse other⟩

/-- A tree with a negative zero cannot have been read, and equals one that is not the same. -/
example :
    let zero := Expr.literal (.number 0)
    let negative := Expr.literal (.number (-0))
    (zero == negative) = true ∧ zero ≠ negative := by
  decide +kernel

end BlockScript
