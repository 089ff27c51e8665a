import BlockScript.Proofs.Grammar.Soundness
import BlockScript.Session

/-!
# Whom a runtime error blames

## Main results

`Parse.wellFormed_ofTokens`: the names, operators and print keywords of a program that has been
read, errors or not, are tokens of its text, and each is of a kind that belongs where it stands.
`Session.run_blames`: the error that stops a run is blamed on a token of the text, and the kind of
the token fits the fault.

## Proof strategy

1. What can be derived stands for a well-formed tree, by induction on the derivation, and a parse
   gives trees of derivations only.
2. An operator fails only for operands that it does not accept. Those that accept all operands
   never do, and the grammar leaves no operator for which the rules say nothing.
3. If every computation of a program can fail only in some ways, so can the program
   (`Run.FailsWith`).
-/

namespace BlockScript

variable {W : Type}

/-- The binary operators that work on numbers alone. -/
def numericOperators : List TokenKind :=
  [.symbol .minus, .symbol .star, .symbol .slash, .symbol .greater, .symbol .greaterEqual,
    .symbol .less, .symbol .lessEqual]

/-- Whether the fault of an error is one that its token can be blamed for. -/
def RuntimeError.Fits (error : RuntimeError) : Prop :=
  match error.fault with
  | .operandMustBeNumber => error.token.kind = .symbol .minus
  | .operandsMustBeNumbersOrStrings => error.token.kind = .symbol .plus
  | .operandsMustBeNumbers => error.token.kind ∈ numericOperators
  | .undefinedVariable name => error.token.kind = .identifier ∧ error.token.lexeme = name
  | .output _ => error.token.kind = .keyword .print_

/-! ### Well-formed trees -/

open Grammar

section

variable (tokens : List Token)

/-- Whether the names and operators of an expression are found among some tokens, and each of them
is of a kind that belongs where it stands. -/
def Expr.WellFormed : Expr → Prop
  | .assign name value => (name ∈ tokens ∧ name.kind = .identifier) ∧ value.WellFormed
  | .binary left operator right =>
    left.WellFormed ∧ (operator ∈ tokens ∧ ∃ level, 2 < level ∧ operator.kind ∈ operators level) ∧
      right.WellFormed
  | .group inner => inner.WellFormed
  | .literal _ => True
  | .logical left operator right =>
    left.WellFormed ∧ (operator ∈ tokens ∧ ∃ level, level ≤ 2 ∧ operator.kind ∈ operators level) ∧
      right.WellFormed
  | .unary operator operand =>
    (operator ∈ tokens ∧ operator.kind ∈ [.symbol .bang, .symbol .minus]) ∧ operand.WellFormed
  | .lookup name => name ∈ tokens ∧ name.kind = .identifier

mutual

/-- Whether the same holds of all expressions of a statement, and of its keywords and the names
that it declares. -/
def Stmt.WellFormed : Stmt → Prop
  | .block body => Stmt.AllWellFormed body
  | .expression value => value.WellFormed tokens
  | .ifThen condition consequent => condition.WellFormed tokens ∧ consequent.WellFormed
  | .ifElse condition consequent alternative =>
    condition.WellFormed tokens ∧ consequent.WellFormed ∧ alternative.WellFormed
  | .print keyword value =>
    (keyword ∈ tokens ∧ keyword.kind = .keyword .print_) ∧ value.WellFormed tokens
  | .var name none => name ∈ tokens ∧ name.kind = .identifier
  | .var name (some initializer) =>
    (name ∈ tokens ∧ name.kind = .identifier) ∧ initializer.WellFormed tokens

def Stmt.AllWellFormed : List Stmt → Prop
  | [] => True
  | first :: rest => first.WellFormed ∧ Stmt.AllWellFormed rest

end

end

namespace Grammar

variable {tokens : List Token}

theorem Phrase.name?_eq_some {phrase : Phrase} {name : Token} (named : phrase.name? = some name) :
    name ∈ phrase.tokens ∧ name.kind = .identifier := by
  obtain ⟨rfl, kind⟩ := eq_atom_of_name? named
  exact ⟨List.mem_singleton_self _, kind⟩

theorem Phrase.wellFormed_atomExpr {token : Token} (member : token ∈ tokens) :
    (atomExpr token).WellFormed tokens := by
  simp only [atomExpr]
  split
  next kind => exact ⟨member, kind⟩
  all_goals trivial

/-- The first two levels are those of the logical operators. -/
theorem logical_iff_level {kind : TokenKind} {level : Nat} (member : kind ∈ operators level) :
    kind = .keyword .or_ ∨ kind = .keyword .and_ ↔ level ≤ 2 := by
  constructor
  · rintro (rfl | rfl)
    · have lowest : .keyword .or_ ∈ operators 1 := List.mem_singleton_self _
      exact Nat.le_succ_of_le (operators_inj member lowest).le
    · have next : .keyword .and_ ∈ operators 2 := List.mem_singleton_self _
      exact (operators_inj member next).le
  · intro loose
    simp only [operators] at member
    split at member <;> simp_all

theorem Phrase.wellFormed_binary {left right : Phrase} {operator : Token} {level : Nat}
    (kind : operator.kind ∈ operators level) (member : operator ∈ tokens)
    (first : left.expr.WellFormed tokens) (second : right.expr.WellFormed tokens) :
    (Phrase.binary left operator right).expr.WellFormed tokens := by
  simp only [expr]
  split
  next logical =>
    have loose := (logical_iff_level kind).mp logical
    exact ⟨first, ⟨member, level, loose, kind⟩, second⟩
  next other =>
    have tight := Nat.lt_of_not_le fun loose => other ((logical_iff_level kind).mpr loose)
    exact ⟨first, ⟨member, level, tight, kind⟩, second⟩

/-- What can be derived stands for a well-formed tree. -/
theorem Phrase.At.wellFormed {phrase : Phrase} {level : Nat} (derived : phrase.At level)
    (among : ∀ token ∈ phrase.tokens, token ∈ tokens) : phrase.expr.WellFormed tokens := by
  induction derived with
  | atom => exact wellFormed_atomExpr (among _ (List.mem_singleton_self _))
  | parens _ _ _ ih =>
    apply ih
    intro token member
    exact among token (List.mem_append_left _ (List.mem_cons_of_mem _ member))
  | unary kind _ ih =>
    obtain ⟨member, inner⟩ := List.forall_mem_cons.mp among
    exact ⟨⟨member, by simpa using kind⟩, ih inner⟩
  | binary kind _ _ ihLeft ihRight =>
    obtain ⟨inLeft, later⟩ := List.forall_mem_append.mp among
    obtain ⟨member, inRight⟩ := List.forall_mem_cons.mp later
    exact wellFormed_binary kind member (ihLeft inLeft) (ihRight inRight)
  | assign _ _ _ ihTarget ihValue =>
    obtain ⟨inTarget, later⟩ := List.forall_mem_append.mp among
    obtain ⟨-, inValue⟩ := List.forall_mem_cons.mp later
    simp only [expr]
    -- What is assigned to something that is no name is dropped.
    split
    next named =>
      obtain ⟨member, kind⟩ := name?_eq_some named
      exact ⟨⟨inTarget _ member, kind⟩, ihValue inValue⟩
    next => exact ihTarget inTarget
  | tighter _ ih => exact ih among

theorem Clause.allWellFormed {clauses : List Clause}
    (each : ∀ clause ∈ clauses, (∀ token ∈ clause.tokens, token ∈ tokens) →
      clause.stmt.WellFormed tokens)
    (among : ∀ token ∈ allTokens clauses, token ∈ tokens) :
    Stmt.AllWellFormed tokens (allStmts clauses) := by
  induction clauses with
  | nil => trivial
  | cons first rest ih =>
    obtain ⟨here, later⟩ := List.forall_mem_append.mp among
    obtain ⟨eachFirst, eachRest⟩ := List.forall_mem_cons.mp each
    exact ⟨eachFirst here, ih eachRest later⟩

theorem Clause.From.wellFormed {nonterminal : Nonterminal} {clause : Clause}
    (derived : clause.From nonterminal) (among : ∀ token ∈ clause.tokens, token ∈ tokens) :
    clause.stmt.WellFormed tokens := by
  induction derived with
  | var _ named _ =>
    simp only [Clause.tokens, List.forall_mem_cons] at among
    exact ⟨among.2.1, named⟩
  | varInit _ named _ value _ =>
    simp only [Clause.tokens, List.forall_mem_cons, List.forall_mem_append, List.cons_append]
      at among
    exact ⟨⟨among.2.1, named⟩, value.wellFormed among.2.2.2.1⟩
  | statement _ ih => exact ih among
  | expression value _ => exact value.wellFormed (List.forall_mem_append.mp among).1
  | print word value _ =>
    simp only [Clause.tokens, List.forall_mem_cons, List.forall_mem_append, List.cons_append]
      at among
    exact ⟨⟨among.1, word⟩, value.wellFormed among.2.1⟩
  | block _ _ _ each =>
    simp only [Clause.tokens, List.forall_mem_cons, List.forall_mem_append, List.cons_append]
      at among
    exact allWellFormed each among.2.1
  | ifThen _ _ tested _ _ ih =>
    simp only [Clause.tokens, List.forall_mem_cons, List.forall_mem_append, List.cons_append]
      at among
    obtain ⟨-, -, condition, -, branch⟩ := among
    exact ⟨tested.wellFormed condition, ih branch⟩
  | ifElse _ _ tested _ _ _ _ _ ih ihOther =>
    simp only [Clause.tokens, List.forall_mem_cons, List.forall_mem_append, List.cons_append,
      List.append_assoc] at among
    obtain ⟨-, -, condition, -, branch, -, other⟩ := among
    exact ⟨tested.wellFormed condition, ih branch, ihOther other⟩

end Grammar

/-- A program that has been read is well-formed, whatever is wrong with the rest of the text. -/
theorem Parse.wellFormed_ofTokens (tokens : List Token) :
    Stmt.AllWellFormed tokens (ofTokens tokens).program := by
  obtain ⟨clauses, derived, program, fewer, -⟩ := exists_derivation tokens
  rw [program]
  apply Clause.allWellFormed
  · exact fun clause member among => (derived clause member).wellFormed among
  · exact fun token member => (List.takeWhile_sublist _).subset (fewer.subset member)

/-! ### Operators -/

/-- Only an operator that negates fails, and in one way. -/
theorem applyUnary_eq_error {operator : Token} {operand : Value} {error : RuntimeError}
    (failed : applyUnary operator operand = .error error) :
    error = ⟨.operandMustBeNumber, operator⟩ ∧ operator.kind ≠ .symbol .bang := by
  simp only [applyUnary] at failed
  split at failed
  · cases failed
  · cases failed
  next noBang =>
    cases failed
    exact ⟨rfl, noBang⟩

/-- Equality never fails. An addition fails in its own way, and all other operators in the same
way. -/
theorem applyBinary_eq_error {operator : Token} {left right : Value} {error : RuntimeError}
    (failed : applyBinary operator left right = .error error) :
    operator.kind ∉ [.symbol .equal, .symbol .notEqual] ∧
      error = ⟨if operator.kind = .symbol .plus then .operandsMustBeNumbersOrStrings
        else .operandsMustBeNumbers, operator⟩ := by
  simp only [applyBinary] at failed
  split at failed
  · cases failed
  · cases failed
  next kind =>
    split at failed <;> cases failed
    simp [kind]
  next unequal different noSum =>
    have blamed : error = ⟨.operandsMustBeNumbers, operator⟩ := by
      -- For two numbers it fails only if it is none of the operators of the language.
      split at failed
      · split at failed <;> cases failed
        rfl
      · cases failed
        rfl
    rw [if_neg noSum]
    have other : operator.kind ∉ [.symbol .equal, .symbol .notEqual] := by
      simpa using ⟨unequal, different⟩
    exact ⟨other, blamed⟩

/-- The binary operators that are neither logical nor an equality or an addition. -/
theorem mem_numericOperators {kind : TokenKind} {level : Nat} (tight : 2 < level)
    (member : kind ∈ operators level) (unequal : kind ∉ [.symbol .equal, .symbol .notEqual])
    (noSum : kind ≠ .symbol .plus) :
    kind ∈ numericOperators := by
  simp only [operators] at member
  split at member <;> grind [numericOperators]

/-! ### Ways to fail -/

namespace Run

variable {α β : Type}

/-- Whether a computation, wherever it starts, fails with none but certain errors. -/
def FailsWith (allowed : RuntimeError → Prop) (run : Run W α) : Prop :=
  ∀ state error, (run state).1 = .error error → allowed error

variable {allowed : RuntimeError → Prop}

theorem failsWith_pure (value : α) : (pure value : Run W α).FailsWith allowed := by
  intro state error failed
  cases failed

theorem failsWith_lift {result : Except RuntimeError α}
    (fails : ∀ error, result = .error error → allowed error) :
    (liftM result : Run W α).FailsWith allowed :=
  fun _ => fails

theorem FailsWith.bind {first : Run W α} {second : α → Run W β} (fails : first.FailsWith allowed)
    (failsNext : ∀ value, (second value).FailsWith allowed) :
    (first >>= second).FailsWith allowed := by
  intro state error failed
  have failsHere := fails state
  rw [bind_apply] at failed
  revert failed failsHere
  rcases first state with ⟨early | value, between⟩
  · rintro ⟨⟩ failsHere
    exact failsHere error rfl
  · intro failed _
    exact failsNext value between error failed

theorem FailsWith.inBlock {body : Run W α} (fails : body.FailsWith allowed) :
    (Run.inBlock body).FailsWith allowed :=
  fun state => fails state.enterBlock

end Run

namespace Interpreter

open Run

variable {allowed : RuntimeError → Prop}

theorem failsWith_get {name : Token} (undefined : allowed (.undefined name)) :
    (Interpreter.get name : Run W Value).FailsWith allowed := by
  intro state error failed
  simp only [Interpreter.get] at failed
  split at failed <;> cases failed
  exact undefined

theorem failsWith_assign {name : Token} (undefined : allowed (.undefined name)) (value : Value) :
    (assign name value : Run W Unit).FailsWith allowed := by
  intro state error failed
  simp only [assign] at failed
  split at failed <;> cases failed
  exact undefined

theorem failsWith_print [Writer W] {keyword : Token}
    (refused : ∀ reason, allowed ⟨.output reason, keyword⟩) (value : Value) :
    (print keyword value : Run W Unit).FailsWith allowed := by
  intro state error failed
  simp only [print] at failed
  split at failed <;> cases failed
  exact refused _

end Interpreter

/-! ### Programs -/

section

open Run Interpreter

variable {tokens : List Token}

theorem Expr.eval_failsWith (expr : Expr) (wellFormed : expr.WellFormed tokens) :
    (expr.eval : Run W Value).FailsWith fun error => error.token ∈ tokens ∧ error.Fits := by
  induction expr with
  | assign name value ih =>
    obtain ⟨⟨member, kind⟩, inner⟩ := wellFormed
    refine (ih inner).bind fun found => ?_
    exact (failsWith_assign ⟨member, kind, rfl⟩ found).bind fun _ => failsWith_pure found
  | binary left operator right ihLeft ihRight =>
    obtain ⟨inLeft, ⟨member, level, tight, kind⟩, inRight⟩ := wellFormed
    refine (ihLeft inLeft).bind fun first => (ihRight inRight).bind fun second => ?_
    apply failsWith_lift
    intro error failed
    obtain ⟨unequal, rfl⟩ := applyBinary_eq_error failed
    refine ⟨member, ?_⟩
    split
    next sum => exact sum
    next noSum => exact mem_numericOperators tight kind unequal noSum
  | group inner ih => exact ih wellFormed
  | literal value => exact failsWith_pure value
  | logical left operator right ihLeft ihRight =>
    obtain ⟨inLeft, -, inRight⟩ := wellFormed
    refine (ihLeft inLeft).bind fun first => ?_
    -- The operator only chooses between the operands.
    split
    · exact failsWith_pure first
    · exact ihRight inRight
  | unary operator operand ih =>
    obtain ⟨⟨member, kind⟩, inner⟩ := wellFormed
    refine (ih inner).bind fun found => failsWith_lift ?_
    intro error failed
    obtain ⟨rfl, noBang⟩ := applyUnary_eq_error failed
    have negates : operator.kind = .symbol .minus := by simpa [noBang] using kind
    exact ⟨member, negates⟩
  | lookup name => exact failsWith_get ⟨wellFormed.1, wellFormed.2, rfl⟩

variable [Writer W]

mutual

theorem Stmt.exec_failsWith (stmt : Stmt) (wellFormed : stmt.WellFormed tokens) :
    (stmt.exec : Run W Unit).FailsWith fun error => error.token ∈ tokens ∧ error.Fits := by
  match stmt with
  | .block body => exact (execAll_failsWith body wellFormed).inBlock
  | .expression value =>
    exact (value.eval_failsWith wellFormed).bind fun _ => failsWith_pure ()
  | .ifThen condition consequent =>
    obtain ⟨tested, branch⟩ := wellFormed
    refine (condition.eval_failsWith tested).bind fun chosen => ?_
    split
    · exact exec_failsWith consequent branch
    · exact failsWith_pure ()
  | .ifElse condition consequent alternative =>
    obtain ⟨tested, branch, other⟩ := wellFormed
    refine (condition.eval_failsWith tested).bind fun chosen => ?_
    split
    · exact exec_failsWith consequent branch
    · exact exec_failsWith alternative other
  | .print keyword value =>
    obtain ⟨⟨member, kind⟩, shown⟩ := wellFormed
    refine (value.eval_failsWith shown).bind fun found => ?_
    exact failsWith_print (fun _ => ⟨member, kind⟩) found
  | .var name none =>
    intro state error failed
    cases failed
  | .var name (some initializer) =>
    obtain ⟨-, given⟩ := wellFormed
    refine (initializer.eval_failsWith given).bind fun found => ?_
    intro state error failed
    cases failed

theorem Stmt.execAll_failsWith (stmts : List Stmt) (wellFormed : AllWellFormed tokens stmts) :
    (execAll stmts : Run W Unit).FailsWith fun error => error.token ∈ tokens ∧ error.Fits := by
  match stmts with
  | [] => exact failsWith_pure ()
  | first :: rest =>
    obtain ⟨here, later⟩ := wellFormed
    exact (exec_failsWith first here).bind fun _ => execAll_failsWith rest later

end

end

/-! ### Main theorem -/

/-- Equality, negation of a truth value and the logical operators cannot be blamed. -/
theorem RuntimeError.Fits.kind_not_mem {error : RuntimeError} (fits : error.Fits) :
    error.token.kind ∉ [.symbol .equal, .symbol .notEqual, .symbol .bang, .keyword .and_,
      .keyword .or_] := by
  have apart : ∀ kind ∈ numericOperators,
      kind ∉ [.symbol .equal, .symbol .notEqual, .symbol .bang, .keyword .and_, .keyword .or_] := by
    decide
  simp only [RuntimeError.Fits] at fits
  split at fits
  · rw [fits]
    decide
  · rw [fits]
    decide
  · exact apart _ fits
  · rw [fits.1]
    decide
  · rw [fits]
    decide

namespace Session

open Interpreter

variable [Writer W]

/-- A runtime error is reported only for a program that has failed with it. -/
theorem interpret_of_runtimeError {session : Session W} {source : String} {error : RuntimeError}
    (failed : (session.run source).1.runtimeError = some error) :
    (interpret (parse source).program session).1 = .error error := by
  simp only [run] at failed
  split at failed
  · simp only [execute] at failed
    split at failed
    · cases failed
    next outcome =>
      rw [outcome]
      exact congrArg Except.error (Option.some.inj failed)
  · cases failed

/-- Runtime errors blame the right token. If the run of a text in a session is stopped by an
error, whatever its writer does, the token of the error is one of the text, and its kind fits the
fault. In particular neither an equality nor an operator on truth values ever fails by itself. -/
theorem run_blames (session : Session W) (source : String) {error : RuntimeError}
    (failed : (session.run source).1.runtimeError = some error) :
    error.token ∈ (scan source).tokens ∧ error.Fits ∧
      error.token.kind ∉ [.symbol .equal, .symbol .notEqual, .symbol .bang, .keyword .and_,
        .keyword .or_] := by
  have fails : (interpret (parse source).program : Run W Unit).FailsWith fun error =>
      error.token ∈ (scan source).tokens ∧ error.Fits := by
    rw [interpret_eq]
    exact Stmt.execAll_failsWith _ (Parse.wellFormed_ofTokens (scan source).tokens)
  obtain ⟨member, fits⟩ := fails session error (interpret_of_runtimeError failed)
  exact ⟨member, fits, fits.kind_not_mem⟩

/-- The minus is at fault, not the equality that has given it its operand. -/
theorem run_blames_minus :
    let source := "var a = true;\nprint -(a == nil);"
    let minus : Token := ⟨.symbol .minus, "-", none, 2⟩
    ((new Sink.unlimited).run source).1.runtimeError = some ⟨.operandMustBeNumber, minus⟩ ∧
      minus ∈ (scan source).tokens := by
  intro source minus
  have failed : ((new Sink.unlimited).run source).1.runtimeError =
      some ⟨.operandMustBeNumber, minus⟩ := by
    decide +kernel
  exact ⟨failed, (run_blames (new Sink.unlimited) source failed).1⟩

end Session

end BlockScript
