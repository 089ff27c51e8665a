import BlockScript.Proofs.Descent.Parser

/-!
# No part of a descent forgets an error

## Main results

`expressionsKeep`, `statementsKeep`: whatever a part of a descent does, the errors that had been
listed before are still listed behind the ones that it has added.

## Proof strategy

Errors are listed by `report` alone, which puts one in front. All else looks, moves or calls: what
is put together from parts that keep the errors keeps them (`Walk.Keeps.bind`, `Parser.Keeps.bind`).
The parts that call each other do so with less fuel, which the induction is on.
-/

namespace BlockScript.Descent

open Parse

/-- Whether a part of a descent only adds to the errors. -/
def Walk.Keeps {α : Type} (walk : Walk α) : Prop :=
  ∀ start result next, walk start = some (result, next) → start.errors <:+ next.errors

/-- Whether a parser only adds to the errors, also when an error cuts it short. -/
def Parser.Keeps {α : Type} (parser : Parser α) : Prop :=
  Walk.Keeps parser.run

/-! ### Parts that are put together -/

section

variable {α β : Type} {condition : Prop} [Decidable condition]

theorem Walk.Keeps.pure (value : α) : Walk.Keeps (Pure.pure value) := by
  rintro start _ _ ⟨⟩
  exact List.suffix_refl _

/-- What only looks leaves the errors as they are. -/
theorem Walk.Keeps.look (seen : Descent → Option α) :
    Walk.Keeps fun descent => (seen descent).map (·, descent) := by
  intro start result next found
  obtain ⟨_, _, ⟨⟩⟩ := Option.map_eq_some_iff.mp found
  exact List.suffix_refl _

theorem Walk.Keeps.change {change : Descent → Descent}
    (adds : ∀ descent : Descent, descent.errors <:+ (change descent).errors) :
    Walk.Keeps (modify change) := by
  rintro start _ _ ⟨⟩
  exact adds start

theorem exhausted_keeps : Walk.Keeps (exhausted : Walk α) :=
  fun _ _ _ found => nomatch found

theorem Walk.Keeps.bind {first : Walk α} {second : α → Walk β} (keeps : first.Keeps)
    (keepsThen : ∀ value, (second value).Keeps) : Walk.Keeps (first >>= second) := by
  intro start result next found
  obtain ⟨⟨value, between⟩, foundFirst, foundThen⟩ := Option.bind_eq_some_iff.mp found
  exact (keeps start value between foundFirst).trans
    (keepsThen value between result next foundThen)

theorem Walk.Keeps.ite {one other : Walk α} (keeps : one.Keeps) (keepsOther : other.Keeps) :
    Walk.Keeps (if condition then one else other) := by
  split
  · exact keeps
  · exact keepsOther

theorem Parser.Keeps.pure (value : α) : Parser.Keeps (Pure.pure value) :=
  Walk.Keeps.pure _

theorem Parser.Keeps.throw (error : Error) : Parser.Keeps (throw error : Parser α) :=
  Walk.Keeps.pure _

theorem Parser.Keeps.lift {walk : Walk α} (keeps : walk.Keeps) :
    Parser.Keeps (liftM walk : Parser α) :=
  Walk.Keeps.bind keeps fun _ => .pure _

theorem Parser.Keeps.bind {first : Parser α} {second : α → Parser β} (keeps : first.Keeps)
    (keepsThen : ∀ value, (second value).Keeps) : Parser.Keeps (first >>= second) := by
  refine Walk.Keeps.bind keeps fun outcome => ?_
  -- An error passes by what would have come next.
  cases outcome with
  | ok value => exact keepsThen value
  | error error => exact Walk.Keeps.pure _

/-- A parser that begins with a walk. -/
theorem Parser.Keeps.after {walk : Walk α} {second : α → Parser β} (keeps : walk.Keeps)
    (keepsThen : ∀ value, (second value).Keeps) :
    Parser.Keeps ((liftM walk : Parser α) >>= second) :=
  (Parser.Keeps.lift keeps).bind keepsThen

theorem Parser.Keeps.ite {one other : Parser α} (keeps : one.Keeps) (keepsOther : other.Keeps) :
    Parser.Keeps (if condition then one else other) :=
  Walk.Keeps.ite keeps keepsOther

end

/-! ### Looking, moving and recovery -/

section

variable (tokens : List Token)

theorem peek_keeps : (peek tokens).Keeps :=
  .look _

theorem previous_keeps : (previous tokens).Keeps :=
  .look _

theorem isAtEnd_keeps : (isAtEnd tokens).Keeps :=
  (peek_keeps tokens).bind fun _ => .pure _

theorem advance_keeps : (advance tokens).Keeps :=
  (isAtEnd_keeps tokens).bind fun _ => .ite (previous_keeps tokens)
    (.bind (.change fun _ => List.suffix_refl _) fun _ => previous_keeps tokens)

theorem check_keeps (kind : TokenKind) : (check tokens kind).Keeps :=
  (isAtEnd_keeps tokens).bind fun _ =>
    .ite (.pure _) ((peek_keeps tokens).bind fun _ => .pure _)

theorem accept_keeps (kinds : List TokenKind) : (accept tokens kinds).Keeps := by
  have looks : Walk.Keeps (kinds.anyM (check tokens)) := by
    induction kinds with
    | nil => exact .pure _
    | cons kind kinds ih =>
      refine (check_keeps tokens kind).bind fun found => ?_
      cases found with
      | true => exact .pure _
      | false => exact ih
  exact looks.bind fun _ => .ite ((advance_keeps tokens).bind fun _ => .pure _) (.pure _)

theorem expect_keeps (kind : TokenKind) (expected : Expectation) :
    (expect tokens kind expected).Keeps :=
  .after (check_keeps tokens kind) fun _ =>
    .ite (.lift (advance_keeps tokens)) (.after (peek_keeps tokens) fun _ => .throw _)

theorem report_keeps (error : Error) : (report error).Keeps :=
  .change fun _ => List.suffix_cons _ _

theorem resume_keeps (fuel : Nat) : (resume tokens fuel).Keeps := by
  induction fuel with
  | zero => exact exhausted_keeps
  | succ fuel ih =>
    simp only [resume]
    refine (isAtEnd_keeps tokens).bind fun _ => .ite (.pure _) ?_
    refine (previous_keeps tokens).bind fun _ => .ite (.pure _) ?_
    refine (peek_keeps tokens).bind fun _ => .ite (.pure _) ?_
    exact (advance_keeps tokens).bind fun _ => ih

theorem synchronize_keeps (fuel : Nat) : (synchronize tokens fuel).Keeps :=
  (advance_keeps tokens).bind fun _ => resume_keeps tokens fuel

/-! ### Expressions -/

theorem assignment_keeps (target : Expr) (equals : Token) (value : Expr) :
    (assignment target equals value).Keeps := by
  unfold assignment
  split
  · exact .pure _
  · exact .after (report_keeps _) fun _ => .pure _

/-- What is known of the parts of an expression with some fuel. -/
structure ExpressionsKeep (fuel : Nat) : Prop where
  expression : (expression tokens fuel).Keeps
  tier : ∀ level, (tier tokens fuel level).Keeps
  chain : ∀ level left, (chain tokens fuel level left).Keeps
  unary : (unary tokens fuel).Keeps
  primary : (primary tokens fuel).Keeps

variable {tokens} {fuel : Nat}

theorem primary_keeps (less : ExpressionsKeep tokens fuel) :
    (primary tokens (fuel + 1)).Keeps := by
  simp only [primary]
  refine .after (peek_keeps tokens) fun token => .ite ?_ ?_
  · refine .after (advance_keeps tokens) fun _ => less.expression.bind fun _ => ?_
    exact (expect_keeps tokens _ _).bind fun _ => .pure _
  · split
    · exact .after (advance_keeps tokens) fun _ => .pure _
    · exact .throw _

theorem expressionsKeep (fuel : Nat) : ExpressionsKeep tokens fuel := by
  induction fuel with
  | zero =>
    constructor <;> intros <;> exact exhausted_keeps
  | succ fuel less =>
    -- Each part calls the others with the fuel that is left.
    constructor
    case expression =>
      simp only [expression]
      refine (less.tier 1).bind fun _ => .after (accept_keeps tokens _) fun _ => .ite ?_ (.pure _)
      refine .after (previous_keeps tokens) fun _ => less.expression.bind fun _ => ?_
      exact assignment_keeps _ _ _
    case tier =>
      intro level
      simp only [tier]
      exact .ite ((less.tier _).bind fun _ => less.chain _ _) less.unary
    case chain =>
      intro level left
      simp only [chain]
      refine .after (accept_keeps tokens _) fun _ => .ite ?_ (.pure _)
      refine .after (previous_keeps tokens) fun _ => (less.tier _).bind fun _ => ?_
      exact less.chain _ _
    case unary =>
      simp only [unary]
      refine .after (accept_keeps tokens _) fun _ => .ite ?_ less.primary
      exact .after (previous_keeps tokens) fun _ => less.unary.bind fun _ => .pure _
    case primary => exact primary_keeps less

theorem expression_keeps (fuel : Nat) : (expression tokens fuel).Keeps :=
  (expressionsKeep fuel).expression

/-! ### Statements and declarations -/

theorem printing_keeps (fuel : Nat) : (printing tokens fuel).Keeps :=
  .after (previous_keeps tokens) fun _ => (expression_keeps fuel).bind fun _ =>
    (expect_keeps tokens _ _).bind fun _ => .pure _

theorem evaluation_keeps (fuel : Nat) : (evaluation tokens fuel).Keeps :=
  (expression_keeps fuel).bind fun _ => (expect_keeps tokens _ _).bind fun _ => .pure _

theorem initializer_keeps (fuel : Nat) : (initializer tokens fuel).Keeps :=
  .after (accept_keeps tokens _) fun _ =>
    .ite ((expression_keeps fuel).bind fun _ => .pure _) (.pure _)

theorem variableDeclaration_keeps (fuel : Nat) : (variableDeclaration tokens fuel).Keeps :=
  (expect_keeps tokens _ _).bind fun _ => (initializer_keeps fuel).bind fun _ =>
    (expect_keeps tokens _ _).bind fun _ => .pure _

theorem recover_keeps (fuel : Nat) (outcome : Except Error Stmt) :
    (recover tokens fuel outcome).Keeps := by
  cases outcome with
  | ok statement => exact .pure _
  | error error =>
    exact (report_keeps error).bind fun _ => (synchronize_keeps tokens fuel).bind fun _ => .pure _

variable (tokens) in
structure StatementsKeep (fuel : Nat) : Prop where
  statement : (statement tokens fuel).Keeps
  branching : (branching tokens fuel).Keeps
  block : ∀ body, (block tokens fuel body).Keeps
  attempt : (attempt tokens fuel).Keeps
  declaration : (declaration tokens fuel).Keeps

theorem statement_keeps (less : StatementsKeep tokens fuel) :
    (statement tokens (fuel + 1)).Keeps := by
  simp only [statement]
  refine .after (peek_keeps tokens) fun token => ?_
  split
  · exact .after (advance_keeps tokens) fun _ => less.branching
  · exact .after (advance_keeps tokens) fun _ => printing_keeps fuel
  · exact .after (advance_keeps tokens) fun _ => (less.block _).bind fun _ => .pure _
  · exact evaluation_keeps fuel

theorem branching_keeps (less : StatementsKeep tokens fuel) :
    (branching tokens (fuel + 1)).Keeps := by
  simp only [branching]
  refine (expect_keeps tokens _ _).bind fun _ => (expression_keeps fuel).bind fun _ => ?_
  refine (expect_keeps tokens _ _).bind fun _ => less.statement.bind fun _ => ?_
  refine .after (accept_keeps tokens _) fun _ => .ite ?_ (.pure _)
  exact less.statement.bind fun _ => .pure _

theorem block_keeps (less : StatementsKeep tokens fuel) (body : List Stmt) :
    (block tokens (fuel + 1) body).Keeps := by
  simp only [block]
  refine .after (check_keeps tokens _) fun _ => .after (isAtEnd_keeps tokens) fun _ => .ite ?_ ?_
  · exact (expect_keeps tokens _ _).bind fun _ => .pure _
  · exact .after less.declaration fun _ => less.block _

theorem attempt_keeps (less : StatementsKeep tokens fuel) :
    (attempt tokens (fuel + 1)).Keeps := by
  simp only [attempt]
  exact .after (accept_keeps tokens _) fun _ =>
    .ite (variableDeclaration_keeps fuel) less.statement

theorem statementsKeep (fuel : Nat) : StatementsKeep tokens fuel := by
  induction fuel with
  | zero =>
    constructor <;> intros <;> exact exhausted_keeps
  | succ fuel less =>
    constructor
    case statement => exact statement_keeps less
    case branching => exact branching_keeps less
    case block => exact block_keeps less
    case attempt => exact attempt_keeps less
    case declaration =>
      simp only [declaration]
      exact Walk.Keeps.bind less.attempt fun _ => recover_keeps fuel _

end

end BlockScript.Descent
