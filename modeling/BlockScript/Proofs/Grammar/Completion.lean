import BlockScript.Proofs.Grammar.Soundness

/-!
# Texts that are right so far

## Main result

`completable_foldl`: as long as nothing in a text is wrong except for assignment targets, the
text is the beginning of a program.

## Proof strategy

The completion is found by looking at what a parse still waits for, from the inside to the
outside.

1. An operand is completed by `nil`, and the expression around it by a parenthesis for each
   open one and whatever ends the expression (`completable_operator`).
2. A finished statement is completed by a brace for each open block (`completable_closed`).
3. Anything else becomes one of these in a token or two.
-/

namespace BlockScript.Grammar

open Parse

/-- Whether a parse comes to its end without a fatal error after some more tokens. None of
them is an `else`, so a finished statement in hand may as well be settled before. -/
def Completable (state : State) : Prop :=
  ∃ tokens : List Token,
    (∀ token ∈ tokens, token.isEnd = false ∧ token.kind ≠ .keyword .else_) ∧
    ∀ mark, ¬ Spoiled ((tokens.foldl State.step state).finish mark).errors

variable {contexts : List Context} {program : List Stmt} {errors : List Error}

theorem spoiled_append {errors more : List Error} :
    Spoiled (errors ++ more) ↔ Spoiled errors ∨ Spoiled more := by
  simp only [Spoiled, List.mem_append, or_and_right, exists_or]

theorem spoiled_reverse : Spoiled errors.reverse ↔ Spoiled errors := by
  simp only [Spoiled, List.mem_reverse]

theorem not_spoiled_targets {targets : List Error}
    (bad : ∀ error ∈ targets, error.fault = .badTarget) : ¬ Spoiled targets := by
  rintro ⟨error, member, fatal⟩
  rw [bad error member] at fatal
  cases fatal

theorem not_spoiled_close (sound : ¬ Spoiled errors) (frames : List Frame) (operand : Expr) :
    ¬ Spoiled (close errors frames operand).badTargets := by
  obtain ⟨targets, bad, same⟩ := close_badTargets errors frames operand
  rw [same, spoiled_append]
  exact not_or.mpr ⟨not_spoiled_targets bad, sound⟩

/-- A token that the language spells `lexeme`. -/
def spelled (kind : TokenKind) (lexeme : String) : Token :=
  ⟨kind, lexeme, none, 1⟩

theorem Completable.of_step {state : State} (token : Token) (kind : token.kind ≠ .endOfInput)
    (noElse : token.kind ≠ .keyword .else_) (next : Completable (state.step token)) :
    Completable state := by
  obtain ⟨tokens, plain, sound⟩ := next
  refine ⟨token :: tokens, ?_, sound⟩
  intro other member
  rcases List.mem_cons.mp member with rfl | later
  · exact ⟨by simpa [Token.isEnd] using kind, noElse⟩
  · exact plain other later

/-! ### Finished statements -/

theorem Completable.of_settled {one other : State} (same : settled one = settled other)
    (declares : (settled one).mode = .declaration) (completable : Completable one) :
    Completable other := by
  obtain ⟨tokens, plain, sound⟩ := completable
  refine ⟨tokens, plain, fun mark => ?_⟩
  have soundMark := sound mark
  cases tokens with
  | nil =>
    simp only [List.foldl_nil, State.finish] at soundMark ⊢
    rw [atEnd_eq_settled mark declares] at soundMark
    rwa [atEnd_eq_settled mark (same ▸ declares), ← same]
  | cons token tokens =>
    have noElse := (plain token List.mem_cons_self).2
    rw [List.foldl_cons, step_settled _ noElse] at soundMark ⊢
    rwa [← same]

/-- What is being read makes no difference to a finished statement. -/
theorem settle_congr {one other : State} {elseFollows : Bool}
    (sameProgram : one.program = other.program) (sameErrors : one.errors = other.errors)
    (statement : Stmt) (contexts : List Context) :
    one.settle elseFollows statement contexts = other.settle elseFollows statement contexts := by
  induction contexts generalizing statement with
  | nil => simp [State.settle, sameProgram, sameErrors]
  | cons context rest ih =>
    cases context with
    | thenBranch condition =>
      cases elseFollows with
      | true => simp [State.settle, sameProgram, sameErrors]
      | false => exact ih (.ifThen condition statement)
    | elseBranch condition consequent => exact ih (.ifElse condition consequent statement)
    | block body => simp [State.settle, sameProgram, sameErrors]

theorem completable_closed (sound : ¬ Spoiled errors) (statement : Stmt) :
    Completable ⟨.closed statement, contexts, program, errors⟩ := by
  induction contexts generalizing statement with
  | nil =>
    refine ⟨[], by simp, fun mark => ?_⟩
    simpa [State.finish, State.atEnd, State.settle, spoiled_reverse] using sound
  | cons context rest ih =>
    cases context with
    | thenBranch condition =>
      refine (ih (.ifThen condition statement)).of_settled ?_ ?_
      · exact settle_congr (by rfl) (by rfl) _ rest
      · exact settle_false_mode _ _ _
    | elseBranch condition consequent =>
      refine (ih (.ifElse condition consequent statement)).of_settled ?_ ?_
      · exact settle_congr (by rfl) (by rfl) _ rest
      · exact settle_false_mode _ _ _
    | block body =>
      apply Completable.of_step (spelled (.symbol .rightBrace) "\x7d") (by simp [spelled])
        (by simp [spelled])
      exact ih (.block (statement :: body).reverse)

theorem completable_statement (sound : ¬ Spoiled errors) :
    Completable ⟨.statement, contexts, program, errors⟩ := by
  apply Completable.of_step (spelled (.keyword .nil_) "nil") (by simp [spelled])
    (by simp [spelled])
  apply Completable.of_step (spelled (.symbol .semicolon) ";") (by simp [spelled])
    (by simp [spelled])
  exact completable_closed sound (.expression (.literal .nil))

/-! ### Expressions -/

def ending : Purpose → Token
  | .condition => spelled (.symbol .rightParen) ")"
  | _ => spelled (.symbol .semicolon) ";"

theorem kind_ending (purpose : Purpose) :
    (ending purpose).kind = .symbol .semicolon ∨ (ending purpose).kind = .symbol .rightParen := by
  cases purpose with
  | condition => exact .inr rfl
  | expression | print | initializer => exact .inl rfl

theorem completable_readEnd (sound : ¬ Spoiled errors) (mode : Mode) (purpose : Purpose)
    (value : Expr) :
    Completable (State.readEnd ⟨mode, contexts, program, errors⟩ purpose value
      (ending purpose)) := by
  cases purpose with
  | expression => exact completable_closed sound (.expression value)
  | print keyword => exact completable_closed sound (.print keyword value)
  | initializer name => exact completable_closed sound (.var name (some value))
  | condition => exact completable_statement sound

theorem completable_operator (sound : ¬ Spoiled errors) (frames : List Frame) (purpose : Purpose)
    (operand : Expr) :
    Completable ⟨.operator frames purpose operand, contexts, program, errors⟩ := by
  -- Each parenthesis leaves fewer frames waiting.
  induction count : frames.length using Nat.strongRecOn generalizing frames operand errors with
  | ind count ih =>
    have soundNow := not_spoiled_close sound frames operand
    cases outside : (close errors frames operand).outside with
    | some rest =>
      apply Completable.of_step (spelled (.symbol .rightParen) ")") (by simp [spelled])
        (by simp [spelled])
      have closed : close errors frames operand = ⟨some rest,
          (close errors frames operand).operand, (close errors frames operand).badTargets⟩ := by
        rw [← outside]
      rw [Phrase.step_rightParen rfl closed]
      exact ih rest.length (count ▸ length_outside_lt outside) soundNow rest _ rfl
    | none =>
      have kind := kind_ending purpose
      have noOperator := precedence?_eq_none kind
      have noEquals : (ending purpose).kind ≠ .symbol .assign := by
        rcases kind with kind | kind <;> simp [kind]
      apply Completable.of_step (ending purpose)
      · rcases kind with kind | kind <;> simp [kind]
      · rcases kind with kind | kind <;> simp [kind]
      · simp only [State.step, State.readOperator, noOperator, if_neg noEquals, outside]
        exact completable_readEnd soundNow _ purpose _

theorem completable_operand (sound : ¬ Spoiled errors) (frames : List Frame) (purpose : Purpose) :
    Completable ⟨.operand frames purpose, contexts, program, errors⟩ := by
  apply Completable.of_step (spelled (.keyword .nil_) "nil") (by simp [spelled])
    (by simp [spelled])
  exact completable_operator sound frames purpose (.literal .nil)

/-! ### Any place -/

/-- Wherever a parse is, unless it skips the rest of a spoiled declaration, it can go on. -/
theorem completable_of_sound {state : State} (sound : ¬ Spoiled state.errors)
    (reads : state.mode ≠ .recovering) : Completable state := by
  rcases state with ⟨mode, contexts, program, errors⟩
  cases mode with
  | declaration =>
    apply Completable.of_step (spelled (.keyword .nil_) "nil") (by simp [spelled])
      (by simp [spelled])
    exact completable_operator sound [] .expression (.literal .nil)
  | statement => exact completable_statement sound
  | closed statement => exact completable_closed sound statement
  | variableName =>
    apply Completable.of_step (spelled .identifier "a") (by simp [spelled]) (by simp [spelled])
    apply Completable.of_step (spelled (.symbol .semicolon) ";") (by simp [spelled])
      (by simp [spelled])
    exact completable_closed sound (.var (spelled .identifier "a") none)
  | variableTail name =>
    apply Completable.of_step (spelled (.symbol .semicolon) ";") (by simp [spelled])
      (by simp [spelled])
    exact completable_closed sound (.var name none)
  | conditionParen =>
    apply Completable.of_step (spelled (.symbol .leftParen) "(") (by simp [spelled])
      (by simp [spelled])
    exact completable_operand sound [] .condition
  | operand frames purpose => exact completable_operand sound frames purpose
  | operator frames purpose operand => exact completable_operator sound frames purpose operand
  | recovering => exact absurd rfl reads

/-- A text in which no declaration is spoiled so far can be completed. -/
theorem completable_foldl {tokens : List Token}
    (sound : ¬ Spoiled (tokens.foldl State.step State.initial).errors) :
    Completable (tokens.foldl State.step State.initial) := by
  apply completable_of_sound sound
  intro recovers
  obtain ⟨kept, ⟨done, outer, inner, _, _, reading, _⟩, _⟩ := holds_foldl tokens
  rw [recovers] at reading
  cases reading with
  | recovering _ spoiled => exact sound spoiled

end BlockScript.Grammar
