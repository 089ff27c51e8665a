import BlockScript.Proofs.Grammar.Closing
import BlockScript.Proofs.Syntax.Relabel

/-!
# Parsing looks at kinds and literals only

## Main results

`ofTokens_map`: if the tokens of a list are replaced by tokens of the same kinds and
literals, the same is read, with the tokens replaced in the program and in the errors.
`reports_relabelled`: so the same is reported, at the places of the replaced tokens.

## Proof strategy

Every part of a state is a tree of tokens, so a state can have its tokens replaced too.
Each way of reading a token commutes with that; a step is one of them, a parse is a fold of
steps.
-/

namespace BlockScript.Parse

/-- Whether a replacement of tokens keeps what parsing looks at. -/
structure Relabels (f : Token → Token) : Prop where
  kind : ∀ token, (f token).kind = token.kind
  literal : ∀ token, (f token).literal = token.literal

theorem relabels_unlined : Relabels Token.unlined :=
  ⟨fun _ => rfl, fun _ => rfl⟩

/-! ### States -/

def Error.map (f : Token → Token) (error : Error) : Error :=
  ⟨error.fault, f error.token⟩

def Frame.map (f : Token → Token) : Frame → Frame
  | .unary operator => .unary (f operator)
  | .binary left operator precedence => .binary (left.map f) (f operator) precedence
  | .assign target equals => .assign (target.map f) (f equals)
  | .group => .group

def Purpose.map (f : Token → Token) : Purpose → Purpose
  | .expression => .expression
  | .print keyword => .print (f keyword)
  | .initializer name => .initializer (f name)
  | .condition => .condition

def Context.map (f : Token → Token) : Context → Context
  | .thenBranch condition => .thenBranch (condition.map f)
  | .elseBranch condition consequent => .elseBranch (condition.map f) (consequent.map f)
  | .block body => .block (body.map (Stmt.map f))

def Mode.map (f : Token → Token) : Mode → Mode
  | .declaration => .declaration
  | .statement => .statement
  | .closed finished => .closed (finished.map f)
  | .variableName => .variableName
  | .variableTail name => .variableTail (f name)
  | .conditionParen => .conditionParen
  | .operand frames purpose => .operand (frames.map (Frame.map f)) (purpose.map f)
  | .operator frames purpose value =>
    .operator (frames.map (Frame.map f)) (purpose.map f) (value.map f)
  | .recovering => .recovering

def State.map (f : Token → Token) (state : State) : State :=
  ⟨state.mode.map f, state.contexts.map (Context.map f), state.program.map (Stmt.map f),
    state.errors.map (Error.map f)⟩

def Closing.map (f : Token → Token) (closing : Closing) : Closing :=
  ⟨closing.outside.map (List.map (Frame.map f)), closing.operand.map f,
    closing.badTargets.map (Error.map f)⟩

/-! ### Reading -/

variable {f : Token → Token}

theorem combine_map (relabels : Relabels f) (left : Expr) (operator : Token) (right : Expr) :
    combine (left.map f) (f operator) (right.map f) = (combine left operator right).map f := by
  unfold combine
  rw [relabels.kind]
  split <;> rfl

theorem reduce_map (relabels : Relabels f) (precedence : Nat) (frames : List Frame)
    (operand : Expr) :
    reduce precedence (frames.map (Frame.map f)) (operand.map f) =
      ((reduce precedence frames operand).1.map (Frame.map f),
        (reduce precedence frames operand).2.map f) := by
  fun_induction reduce precedence frames operand with
  | case1 operator rest operand ih => exact ih
  | case2 left operator level rest operand tighter ih =>
    rw [List.map_cons, Frame.map, reduce, if_pos tighter, combine_map relabels]
    exact ih
  | case3 left operator level rest operand looser =>
    rw [List.map_cons, Frame.map, reduce, if_neg looser]
  | case4 frames operand noUnary noBinary =>
    cases frames with
    | nil => rfl
    | cons frame rest =>
      cases frame with
      | unary operator => exact (noUnary operator rest rfl).elim
      | binary left operator level => exact (noBinary left operator level rest rfl).elim
      | assign | group => rfl

theorem close_map (relabels : Relabels f) (errors : List Error) (frames : List Frame)
    (operand : Expr) :
    close (errors.map (Error.map f)) (frames.map (Frame.map f)) (operand.map f) =
      (close errors frames operand).map f := by
  fun_induction close errors frames operand with
  | case1 errors operator rest operand ih => exact ih
  | case2 errors left operator level rest operand ih =>
    rw [List.map_cons, Frame.map, close, combine_map relabels]
    exact ih
  | case3 errors name equals rest operand ih => exact ih
  | case4 errors target equals rest operand notName ih =>
    -- A target that is no name is none after its tokens have been replaced.
    cases target with
    | lookup name => exact (notName name rfl).elim
    | assign | binary | group | literal | logical | unary => exact ih
  | case5 => rfl
  | case6 => rfl

theorem atom?_map (relabels : Relabels f) (token : Token) :
    atom? (f token) = (atom? token).map (Expr.map f) := by
  unfold atom?
  rw [relabels.kind, relabels.literal]
  split <;> simp [Expr.map, Function.comp_def]

@[simp] theorem Context.isBlock_map (context : Context) :
    (context.map f).isBlock = context.isBlock := by
  cases context <;> rfl

namespace State

theorem fail_map (relabels : Relabels f) (state : State) (fault : Fault) (token : Token) :
    (state.map f).fail fault (f token) = (state.fail fault token).map f := by
  have contexts : (state.contexts.map (Context.map f)).dropWhile
      (fun context => !context.isBlock) =
      (state.contexts.dropWhile (fun context => !context.isBlock)).map (Context.map f) := by
    simp [List.dropWhile_map, Function.comp_def]
  simp only [fail, map, record, relabels.kind, contexts, List.map_cons, Error.map]
  split <;> rfl

theorem readOperand_map (relabels : Relabels f) (state : State) (frames : List Frame)
    (purpose : Purpose) (token : Token) :
    (state.map f).readOperand (frames.map (Frame.map f)) (purpose.map f) (f token) =
      (state.readOperand frames purpose token).map f := by
  unfold readOperand
  rw [relabels.kind, atom?_map relabels]
  split
  · rfl
  · rfl
  · rfl
  · cases atom? token with
    | none => exact fail_map relabels state .noExpression token
    | some operand => rfl

theorem readEnd_map (relabels : Relabels f) (state : State) (purpose : Purpose) (value : Expr)
    (token : Token) :
    (state.map f).readEnd (purpose.map f) (value.map f) (f token) =
      (state.readEnd purpose value token).map f := by
  have fails := fun fault => fail_map relabels state fault token
  -- The kind of the token alone tells whether it ends the expression.
  cases purpose <;> simp only [readEnd, Purpose.map, relabels.kind] <;> split
  all_goals first
    | rfl
    | exact fails _

theorem readOperator_map (relabels : Relabels f) (state : State) (frames : List Frame)
    (purpose : Purpose) (operand : Expr) (token : Token) :
    (state.map f).readOperator (frames.map (Frame.map f)) (purpose.map f) (operand.map f)
        (f token) =
      (state.readOperator frames purpose operand token).map f := by
  let ended := { state with errors := (close state.errors frames operand).badTargets }
  have closed := close_map relabels state.errors frames operand
  unfold readOperator
  rw [relabels.kind]
  split
  · rw [reduce_map relabels]
    rfl
  · split
    · rw [reduce_map relabels]
      rfl
    · simp only [map, closed, Closing.map]
      cases (close state.errors frames operand).outside with
      | none => exact readEnd_map relabels ended purpose _ token
      | some outside =>
        simp only [Option.map_some]
        split
        · rfl
        · exact fail_map relabels ended _ token

theorem settle_map (state : State) (elseFollows : Bool) (statement : Stmt)
    (contexts : List Context) :
    (state.map f).settle elseFollows (statement.map f) (contexts.map (Context.map f)) =
      (state.settle elseFollows statement contexts).map f := by
  fun_induction settle state elseFollows statement contexts with
  | case1 _ _ _ _ ih => exact ih
  | case2 statement condition rest follows =>
    rw [List.map_cons, Context.map, settle, if_pos follows]
    rfl
  | case3 statement condition rest noElse ih =>
    rw [List.map_cons, Context.map, settle, if_neg noElse]
    exact ih
  | case4 | case5 => rfl

theorem readStatement_map (relabels : Relabels f) (state : State) (token : Token) :
    (state.map f).readStatement (f token) = (state.readStatement token).map f := by
  unfold readStatement
  rw [relabels.kind]
  split
  · rfl
  · rfl
  · rfl
  · exact readOperand_map relabels state [] .expression token

/-- A declaration that is no variable's is a statement. -/
theorem readDeclaration_eq (state : State) {token : Token} (noVar : token.kind ≠ .keyword .var_)
    (noEnd : token.kind = .symbol .rightBrace → ∀ body rest, state.contexts ≠ .block body :: rest) :
    state.readDeclaration token = state.readStatement token := by
  unfold readDeclaration
  split
  next word => exact absurd word noVar
  next body rest brace contexts => exact absurd contexts (noEnd brace body rest)
  · rfl

theorem readDeclaration_map (relabels : Relabels f) (state : State) (token : Token) :
    (state.map f).readDeclaration (f token) = (state.readDeclaration token).map f := by
  have same := relabels.kind token
  -- A variable, the end of a block, or a statement: the same for both tokens.
  by_cases word : token.kind = .keyword .var_
  · simp [readDeclaration, same, word, map, Mode.map]
  by_cases ended : ∃ body rest, token.kind = .symbol .rightBrace ∧
      state.contexts = .block body :: rest
  · obtain ⟨body, rest, brace, contexts⟩ := ended
    simp [readDeclaration, same, brace, contexts, map, Mode.map, Context.map, Stmt.map,
      Stmt.mapAll_eq]
  · have noEnd : token.kind = .symbol .rightBrace →
        ∀ body rest, state.contexts ≠ .block body :: rest :=
      fun brace body rest contexts => ended ⟨body, rest, brace, contexts⟩
    have noEndNow : (f token).kind = .symbol .rightBrace →
        ∀ body rest, (state.map f).contexts ≠ .block body :: rest := by
      intro brace body rest contexts
      obtain ⟨context, later, contextsEq, blockEq, _⟩ := List.map_eq_cons_iff.mp contexts
      cases context with
      | thenBranch | elseBranch => cases blockEq
      | block inner => exact noEnd (same ▸ brace) inner later contextsEq
    rw [readDeclaration_eq state word noEnd, readDeclaration_eq _ (same ▸ word) noEndNow]
    exact readStatement_map relabels state token

theorem readAfter_map (relabels : Relabels f) (state : State) (statement : Stmt) (token : Token) :
    (state.map f).readAfter (statement.map f) (f token) =
      (state.readAfter statement token).map f := by
  have contexts : (state.map f).contexts = state.contexts.map (Context.map f) := rfl
  unfold readAfter
  -- What is settled first commutes with replacing, and so does what is read then.
  rw [relabels.kind, contexts, settle_map]
  generalize state.settle (token.kind = .keyword .else_) statement state.contexts = settled
  have read := readDeclaration_map relabels settled token
  simp only
  cases mode : settled.mode with
  | statement => simp [map, mode, Mode.map]
  | _ => simpa [map, mode, Mode.map] using read

theorem readRecovering_map (relabels : Relabels f) (state : State) (token : Token) :
    (state.map f).readRecovering (f token) = (state.readRecovering token).map f := by
  unfold readRecovering
  rw [relabels.kind]
  split
  · rfl
  · split
    · exact readDeclaration_map relabels state token
    · rfl
  · rfl

/-- A step commutes with replacing tokens. -/
theorem step_map (relabels : Relabels f) (state : State) (token : Token) :
    (state.map f).step (f token) = (state.step token).map f := by
  rcases state with ⟨mode, contexts, program, errors⟩
  cases mode with
  | declaration => exact readDeclaration_map relabels _ token
  | statement => exact readStatement_map relabels _ token
  | closed statement => exact readAfter_map relabels _ statement token
  | variableName =>
    simp only [step, map, Mode.map, relabels.kind]
    split
    · rfl
    · exact fail_map relabels ⟨.variableName, contexts, program, errors⟩ _ token
  | variableTail name =>
    simp only [step, map, Mode.map, relabels.kind]
    split
    · rfl
    · rfl
    · exact fail_map relabels ⟨.variableTail name, contexts, program, errors⟩ _ token
  | conditionParen =>
    simp only [step, map, Mode.map, relabels.kind]
    split
    · rfl
    · exact fail_map relabels ⟨.conditionParen, contexts, program, errors⟩ _ token
  | operand frames purpose => exact readOperand_map relabels _ frames purpose token
  | operator frames purpose operand =>
    exact readOperator_map relabels _ frames purpose operand token
  | recovering => exact readRecovering_map relabels _ token

theorem foldl_step_map (relabels : Relabels f) (tokens : List Token) (state : State) :
    (tokens.map f).foldl step (state.map f) = (tokens.foldl step state).map f := by
  induction tokens generalizing state with
  | nil => rfl
  | cons token tokens ih =>
    rw [List.map_cons, List.foldl_cons, List.foldl_cons, step_map relabels, ih]

theorem atEnd_map (relabels : Relabels f) (state : State) (mark : Token) :
    (state.map f).atEnd (f mark) = (state.atEnd mark).map f := by
  have stepped := step_map relabels state mark
  rcases state with ⟨mode, contexts, program, errors⟩
  cases mode with
  | declaration | recovering => rfl
  | closed statement => exact settle_map _ false statement contexts
  | statement | variableName | variableTail | conditionParen | operand | operator =>
    exact stepped

end State

/-! ### Whole lists -/

def Result.map (f : Token → Token) (result : Result) : Result :=
  ⟨result.program.map (Stmt.map f), result.errors.map (Error.map f)⟩

theorem State.finish_map (relabels : Relabels f) (state : State) (mark : Token) :
    (state.map f).finish (f mark) = (state.finish mark).map f := by
  unfold finish
  rw [atEnd_map relabels]
  simp [map, Result.map, List.filter_map, Function.comp_def, Error.map]

theorem Relabels.isEnd (relabels : Relabels f) (token : Token) :
    (f token).isEnd = token.isEnd := by
  rw [Token.isEnd, relabels.kind, Token.isEnd]

theorem endMark_map (relabels : Relabels f) {tokens : List Token}
    (ended : ∃ token ∈ tokens, token.isEnd = true) :
    endMark (tokens.map f) = f (endMark tokens) := by
  have marks : Token.isEnd ∘ f = Token.isEnd := funext relabels.isEnd
  unfold endMark
  rw [List.find?_map, marks]
  cases found : tokens.find? Token.isEnd with
  | some mark => rfl
  | none =>
    -- Without a mark the end would be where no token is, and nothing is replaced there.
    obtain ⟨token, member, mark⟩ := ended
    exact absurd mark (List.find?_eq_none.mp found token member)

/-- **Parsing commutes with replacing tokens** by others of the same kinds and literals. -/
theorem ofTokens_map (relabels : Relabels f) {tokens : List Token}
    (ended : ∃ token ∈ tokens, token.isEnd = true) :
    ofTokens (tokens.map f) = (ofTokens tokens).map f := by
  have text : (tokens.map f).takeWhile (fun token => !token.isEnd) =
      (tokens.takeWhile (fun token => !token.isEnd)).map f := by
    have same : (fun token : Token => !token.isEnd) ∘ f = fun token => !token.isEnd :=
      funext fun token => congrArg not (relabels.isEnd token)
    rw [List.takeWhile_map, same]
  have initial : State.initial = State.initial.map f := rfl
  rw [ofTokens, text, initial, State.foldl_step_map relabels, endMark_map relabels ended,
    State.finish_map relabels]
  rfl

/-- **What is reported of replaced tokens.** The program holds the replaced tokens. There are the
same errors in the same order, each with its message and at the place of the replaced token. -/
theorem reports_relabelled (relabels : Relabels f) {tokens : List Token}
    (ended : ∃ token ∈ tokens, token.isEnd = true) :
    (ofTokens (tokens.map f)).program = (ofTokens tokens).program.map (Stmt.map f) ∧
      (ofTokens (tokens.map f)).errors.map Error.report =
        (ofTokens tokens).errors.map fun error =>
          SyntaxError.atToken (f error.token) error.fault.message := by
  rw [ofTokens_map relabels ended]
  refine ⟨rfl, ?_⟩
  rw [Result.map, List.map_map]
  rfl

/-- Other names, two lines further down, after a declaration that is spoiled. -/
theorem reports_relabelled_renamed :
    let f : Token → Token := fun token => { token with lexeme := "other", line := token.line + 2 }
    let tokens := (scan "print a +;\nb = 1 = c;").tokens
    let result := ofTokens (tokens.map f)
    result.program = (ofTokens tokens).program.map (Stmt.map f) ∧
      result.program.length = 1 ∧
      result.errors.map Error.report =
        [⟨3, .lexeme "other", "Expect expression."⟩,
          ⟨4, .lexeme "other", "Invalid assignment target."⟩] := by
  intro f tokens result
  have relabels : Relabels f := ⟨fun _ => rfl, fun _ => rfl⟩
  obtain ⟨program, errors⟩ := reports_relabelled relabels
    (show ∃ token ∈ tokens, token.isEnd = true by decide +kernel)
  refine ⟨program, ?_, ?_⟩
  · rw [program]
    decide +kernel
  · rw [errors]
    decide +kernel

end BlockScript.Parse
